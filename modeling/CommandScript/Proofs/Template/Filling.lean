import Mathlib.Tactic.Common
import CommandScript.Data.Snbt
import CommandScript.Proofs.Text.Runs
import CommandScript.Template.Segment

/-! What filling a template in comes to, said of its characters; the text of the scanned segments is
the same. -/
namespace CommandScript.Template
open Text

/-- Names are made of the letters and digits of ASCII and of underscores. -/
def InNameAlphabet (c : Char) : Prop :=
  ('A' ≤ c ∧ c ≤ 'Z') ∨ ('a' ≤ c ∧ c ≤ 'z') ∨ ('0' ≤ c ∧ c ≤ '9') ∨ c = '_'

theorem isNameChar_iff (c : Char) : isNameChar c = true ↔ InNameAlphabet c := by
  simp only [isNameChar, Bool.or_eq_true, beq_iff_eq, isAlphanum_iff, or_assoc, InNameAlphabet]

/-- `out` is a text with a dollar sign for each `$$` and the text of its value for each placeholder.
What stands in a value is not read again. -/
inductive Fills (given : Compound) : List Char → List Char → Prop
  | done : Fills given [] []
  | plain {c : Char} {text out : List Char} (notDollar : c ≠ '$') (rest : Fills given text out) :
      Fills given (c :: text) (c :: out)
  | dollar {text out : List Char} (rest : Fills given text out) :
      Fills given ('$' :: '$' :: text) ('$' :: out)
  | placeholder {name text out : List Char} {value : Value} (nonempty : name ≠ [])
      (chars : ∀ c ∈ name, InNameAlphabet c)
      (found : given.get? (String.ofList name) = some value) (rest : Fills given text out) :
      Fills given ('$' :: (name ++ '$' :: text)) (value.text.toList ++ out)

theorem dollar_not_in_nameAlphabet : ¬InNameAlphabet '$' := by
  rw [← isNameChar_iff]
  decide

theorem name_append_ne_dollar {name text text' : List Char} (hne : name ≠ [])
    (h : ∀ c ∈ name, InNameAlphabet c) : name ++ text ≠ '$' :: text' := by
  cases name with
  | nil => exact absurd rfl hne
  | cons c name =>
    intro heq
    cases heq
    exact dollar_not_in_nameAlphabet (h '$' List.mem_cons_self)

/-- A name is taken up to the first character that is not of one. -/
theorem splits_name {name : List Char} {c : Char} (text : List Char) (hc : ¬InNameAlphabet c)
    (h : ∀ x ∈ name, InNameAlphabet x) :
    (name ++ c :: text).takeWhile isNameChar = name ∧
      (name ++ c :: text).dropWhile isNameChar = c :: text := by
  have hname : ∀ x ∈ name, isNameChar x = true := fun x hx => (isNameChar_iff x).mpr (h x hx)
  have hstop : isNameChar c = false := Bool.eq_false_iff.mpr (mt (isNameChar_iff c).mp hc)
  refine (splits_iff isNameChar _ _ _).mpr ⟨rfl, hname, ?_⟩
  rintro x ⟨⟩
  exact hstop

theorem inNameAlphabet_of_mem_takeWhile {cs : List Char} :
    ∀ c ∈ cs.takeWhile isNameChar, InNameAlphabet c :=
  fun c hc => (isNameChar_iff c).mp (List.all_eq_true.mp List.all_takeWhile c hc)

/-- A placeholder ends at the first dollar sign behind its beginning. -/
theorem name_unique {name name' text text' : List Char} (h : ∀ c ∈ name, InNameAlphabet c)
    (h' : ∀ c ∈ name', InNameAlphabet c) (heq : name ++ '$' :: text = name' ++ '$' :: text') :
    name = name' ∧ text = text' := by
  obtain ⟨htake, hdrop⟩ := splits_name text dollar_not_in_nameAlphabet h
  obtain ⟨htake', hdrop'⟩ := splits_name text' dollar_not_in_nameAlphabet h'
  rw [heq] at htake hdrop
  exact ⟨htake.symm.trans htake', (List.cons.inj (hdrop.symm.trans hdrop')).2⟩

theorem Fills.unique {given : Compound} {text out out' : List Char} (h : Fills given text out)
    (h' : Fills given text out') : out = out' := by
  induction h generalizing out' with
  | done =>
    cases h'
    rfl
  | plain hc hrest ih =>
    cases h' with
    | plain hc' hrest' => rw [ih hrest']
    | dollar hrest' => exact absurd rfl hc
    | placeholder hne hchars hfound hrest' => exact absurd rfl hc
  | dollar hrest ih =>
    generalize htext : '$' :: '$' :: _ = text' at h'
    cases h' with
    | done => cases htext
    | plain hc' hrest' =>
      cases htext
      exact absurd rfl hc'
    | dollar hrest' =>
      cases htext
      rw [ih hrest']
    | placeholder hne hchars hfound hrest' =>
      exact absurd (List.cons.inj htext).2.symm (name_append_ne_dollar hne hchars)
  | @placeholder name text out value hne hchars hfound hrest ih =>
    generalize htext : '$' :: (name ++ '$' :: text) = text' at h'
    cases h' with
    | done => cases htext
    | plain hc' hrest' =>
      cases htext
      exact absurd rfl hc'
    | dollar hrest' => exact absurd (List.cons.inj htext).2 (name_append_ne_dollar hne hchars)
    | @placeholder name' text' out' value' hne' hchars' hfound' hrest' =>
      obtain ⟨rfl, rfl⟩ := name_unique hchars hchars' (List.cons.inj htext).2
      rw [hfound] at hfound'
      cases hfound'
      rw [ih hrest']

/-- A run of plain characters, and what stands behind it. -/
theorem plain_run {c : Char} (rest : List Char) (hc : isPlain c = true) :
    (∀ c' ∈ c :: rest.takeWhile isPlain, isPlain c' = true) ∧
      c :: rest = c :: rest.takeWhile isPlain ++ rest.dropWhile isPlain := by
  constructor
  · intro c' hc'
    rcases List.mem_cons.mp hc' with rfl | hmem
    · exact hc
    · exact List.all_eq_true.mp List.all_takeWhile c' hmem
  · exact congrArg (c :: ·) List.takeWhile_append_dropWhile.symm

theorem Fills.append_plain {given : Compound} {run text out : List Char}
    (hrun : ∀ c ∈ run, isPlain c = true) (h : Fills given text out) :
    Fills given (run ++ text) (run ++ out) := by
  induction run with
  | nil => exact h
  | cons c run ih =>
    have hc : c ≠ '$' := by simpa [isPlain] using hrun c List.mem_cons_self
    exact .plain hc (ih fun c' hc' => hrun c' (List.mem_cons_of_mem c hc'))

theorem Segment.toList_renderAll_cons (value? : String → Option String) (s : Segment)
    (segments : List Segment) :
    (renderAll value? (s :: segments)).toList =
      (s.render value?).toList ++ (renderAll value? segments).toList := by
  simp [renderAll]

/-- The text of the scanned segments is the text filled in, if every placeholder has a value. -/
theorem fills_of_scanFrom {given : Compound} {value? : String → Option String} {offset : Nat}
    {cs : List Char} (herror : (scanFrom offset cs).error = none)
    (hvalues : ∀ name, .placeholder name ∈ (scanFrom offset cs).segments →
      ∃ v, given.get? name = some v ∧ value? name = some v.text) :
    Fills given cs (Segment.renderAll value? (scanFrom offset cs).segments).toList := by
  fun_induction scanFrom offset cs with
  | case1 offset => exact .done
  | case2 offset c rest hc plain ih =>
    obtain ⟨hplain, hsplit⟩ := plain_run rest hc
    have hrest := ih herror fun name hname => hvalues name (List.mem_cons_of_mem _ hname)
    rw [hsplit, Scan.cons, Segment.toList_renderAll_cons, Segment.render, String.toList_ofList]
    exact hrest.append_plain hplain
  | case3 offset c rest hc hhead ih =>
    have hdollar : c = '$' := by simpa [isPlain] using hc
    obtain ⟨behind, rfl⟩ := List.head?_eq_some_iff.mp hhead
    have hone : (Segment.render value? (.literal "$")).toList = ['$'] := by simp [Segment.render]
    have hrest := ih herror fun name hname => hvalues name (List.mem_cons_of_mem _ hname)
    rw [hdollar, Scan.cons, Segment.toList_renderAll_cons, hone]
    exact .dollar hrest
  | case4 => cases herror
  | case5 offset c rest hc hhead name after hafter ih =>
    have hdollar : c = '$' := by simpa [isPlain] using hc
    have hsplit : rest = name ++ '$' :: after := by
      rw [← hafter]
      exact List.takeWhile_append_dropWhile.symm
    have hne : name ≠ [] := by
      intro hnil
      rw [hsplit, hnil] at hhead
      exact hhead rfl
    have hchars : ∀ c' ∈ name, InNameAlphabet c' := inNameAlphabet_of_mem_takeWhile
    obtain ⟨v, hfound, hvalue⟩ := hvalues (String.ofList name) List.mem_cons_self
    have hrest := ih herror fun name' hname => hvalues name' (List.mem_cons_of_mem _ hname)
    rw [hdollar, hsplit, Scan.cons, Segment.toList_renderAll_cons, Segment.render, hvalue]
    exact .placeholder hne hchars hfound hrest
  | case6 => cases herror

theorem Fills.of_append_plain {given : Compound} {run text out : List Char}
    (hrun : ∀ c ∈ run, isPlain c = true) (h : Fills given (run ++ text) out) :
    ∃ out', Fills given text out' := by
  induction run generalizing out with
  | nil => exact ⟨out, h⟩
  | cons c run ih =>
    have hc : c ≠ '$' := by simpa [isPlain] using hrun c List.mem_cons_self
    have hrest : ∃ out', Fills given (run ++ text) out' := by
      generalize htext : c :: run ++ text = text' at h
      cases h with
      | done => cases htext
      | plain hc' hrest =>
        cases htext
        exact ⟨_, hrest⟩
      | dollar hrest => exact absurd (List.cons.inj htext).1 hc
      | placeholder hne hchars hfound hrest => exact absurd (List.cons.inj htext).1 hc
    obtain ⟨out', hout'⟩ := hrest
    exact ih (fun c' hc' => hrun c' (List.mem_cons_of_mem c hc')) hout'

theorem Fills.of_two_dollars {given : Compound} {text out : List Char}
    (h : Fills given ('$' :: '$' :: text) out) : ∃ out', Fills given text out' := by
  generalize htext : '$' :: '$' :: text = text' at h
  cases h with
  | done => cases htext
  | plain hc hrest => exact absurd (List.cons.inj htext).1.symm hc
  | dollar hrest =>
    cases htext
    exact ⟨_, hrest⟩
  | placeholder hne hchars hfound hrest =>
    exact absurd (List.cons.inj htext).2.symm (name_append_ne_dollar hne hchars)

/-- A single dollar sign in a text that can be filled in begins a placeholder. -/
theorem Fills.of_dollar {given : Compound} {text out : List Char}
    (h : Fills given ('$' :: text) out) (hsingle : text.head? ≠ some '$') :
    ∃ behind, text.dropWhile isNameChar = '$' :: behind ∧
      (∃ v, given.get? (String.ofList (text.takeWhile isNameChar)) = some v) ∧
      ∃ out', Fills given behind out' := by
  cases h with
  | plain hc hrest => exact absurd rfl hc
  | dollar hrest => exact absurd rfl hsingle
  | placeholder hne hchars hfound hrest =>
    obtain ⟨htake, hdrop⟩ := splits_name _ dollar_not_in_nameAlphabet hchars
    rw [htake]
    exact ⟨_, hdrop, ⟨_, hfound⟩, _, hrest⟩

/-- A text that can be filled in is scanned without a fault, and its placeholders have values. -/
theorem scanFrom_of_fills {given : Compound} {cs : List Char} (offset : Nat)
    (h : ∃ out, Fills given cs out) :
    (scanFrom offset cs).error = none ∧
      ∀ name, .placeholder name ∈ (scanFrom offset cs).segments →
        ∃ v, given.get? name = some v := by
  have hdollar : ∀ c, ¬isPlain c = true → c = '$' := by simp [isPlain]
  fun_induction scanFrom offset cs with
  | case1 offset => exact ⟨rfl, nofun⟩
  | case2 offset c rest hc plain ih =>
    obtain ⟨out, h⟩ := h
    obtain ⟨hplain, hsplit⟩ := plain_run rest hc
    rw [hsplit] at h
    obtain ⟨herror, hvalues⟩ := ih (h.of_append_plain hplain)
    refine ⟨herror, ?_⟩
    intro name hname
    exact hvalues name ((List.mem_cons.mp hname).resolve_left nofun)
  | case3 offset c rest hc hhead ih =>
    obtain ⟨out, h⟩ := h
    obtain ⟨behind, rfl⟩ := List.head?_eq_some_iff.mp hhead
    rw [hdollar c hc] at h
    obtain ⟨herror, hvalues⟩ := ih h.of_two_dollars
    refine ⟨herror, ?_⟩
    intro name hname
    exact hvalues name ((List.mem_cons.mp hname).resolve_left nofun)
  | case4 offset c rest hc hhead hafter =>
    obtain ⟨out, h⟩ := h
    rw [hdollar c hc] at h
    obtain ⟨behind, hbehind, -⟩ := h.of_dollar hhead
    rw [hafter] at hbehind
    cases hbehind
  | case5 offset c rest hc hhead name after hafter ih =>
    obtain ⟨out, h⟩ := h
    rw [hdollar c hc] at h
    obtain ⟨behind, hbehind, hvalue, hrest⟩ := h.of_dollar hhead
    rw [hafter] at hbehind
    cases hbehind
    obtain ⟨herror, hvalues⟩ := ih hrest
    refine ⟨herror, ?_⟩
    intro name' hname
    rcases List.mem_cons.mp hname with hfirst | hname
    · cases hfirst
      exact hvalue
    · exact hvalues name' hname
  | case6 offset c rest hc hhead c' after hafter hc' =>
    obtain ⟨out, h⟩ := h
    rw [hdollar c hc] at h
    obtain ⟨behind, hbehind, -⟩ := h.of_dollar hhead
    rw [hafter] at hbehind
    cases hbehind
    exact absurd rfl hc'

end CommandScript.Template
