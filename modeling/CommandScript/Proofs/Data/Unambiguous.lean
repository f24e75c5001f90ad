import CommandScript.Proofs.Data.Atoms

/-! SNBT is unambiguous: in front of a delimiter, the text of a value shows where it ends and which
value it is. -/
namespace CommandScript
open Numeric Text

/-- The characters that may stand behind a value. -/
def isDelimiter (c : Char) : Bool := c == ',' || c == ':' || c == ']' || c == '\x7d'

/-- A value may end in front of this text. -/
def EndsValue (rest : List Char) : Prop := ∀ c ∈ rest.head?, isDelimiter c = true

/-- How the text of a value begins. -/
inductive Opening
  | atom
  | quote
  | bracket
  | brace

def openingOf : List Char → Option Opening
  | [] => none
  | c :: _ =>
    if isAtomChar c then some .atom
    else if c = '"' then some .quote
    else if c = '[' then some .bracket
    else if c = '\x7b' then some .brace
    else none

theorem openingOf_append {cs : List Char} {o : Opening} (h : openingOf cs = some o)
    (rest : List Char) : openingOf (cs ++ rest) = some o := by
  cases cs with
  | nil => cases h
  | cons c cs => exact h

theorem openingOf_of_isDelimiter {c : Char} (h : isDelimiter c = true) (rest : List Char) :
    openingOf (c :: rest) = none := by
  simp only [isDelimiter, Bool.or_eq_true, beq_iff_eq] at h
  rcases h with ((rfl | rfl) | rfl) | rfl
  · rfl
  · rfl
  · rfl
  · rfl

theorem isAtomChar_eq_false_of_isDelimiter {c : Char} (h : isDelimiter c = true) :
    isAtomChar c = false := by
  apply Bool.eq_false_iff.mpr
  intro hatom
  have hopening := openingOf_of_isDelimiter h []
  rw [openingOf, if_pos hatom] at hopening
  cases hopening

theorem openingOf_of_isRun {cs : List Char} (h : IsRun isAtomChar cs) :
    openingOf cs = some .atom := by
  obtain ⟨c, cs, rfl⟩ := List.exists_cons_of_ne_nil h.nonempty
  rw [openingOf, if_pos (h.all c List.mem_cons_self)]

section Lists

variable {α : Type} {P : α → Prop} {write : α → List Char}

/-- Among the things with `P`, the text of this one shows what it is and where it ends, if a
delimiter or nothing stands behind it. -/
def Legible (P : α → Prop) (write : α → List Char) (x : α) : Prop :=
  ∀ x' rest rest', P x' → EndsValue rest → EndsValue rest' →
    write x ++ rest = write x' ++ rest' → x = x' ∧ rest = rest'

/-- Texts with commas between neighbours. -/
def separated (write : α → List Char) : List α → List Char
  | [] => []
  | x :: xs => write x ++ xs.flatMap fun y => ',' :: write y

/-- A comma or the closing mark stands behind each of the members of a list. -/
theorem endsValue_flatMap (xs : List α) {close : Char} (hclose : isDelimiter close = true)
    (rest : List Char) :
    EndsValue (xs.flatMap (fun y => ',' :: write y) ++ close :: rest) := by
  intro c hc
  cases xs with
  | nil =>
    cases hc
    exact hclose
  | cons x xs =>
    cases hc
    rfl

theorem eq_of_flatMap_append {close : Char} (hclose : isDelimiter close = true)
    (hcomma : close ≠ ',') {xs xs' : List α} {rest rest' : List Char}
    (hxs : ∀ x ∈ xs, Legible P write x) (hxs' : ∀ x ∈ xs', P x)
    (h : xs.flatMap (fun y => ',' :: write y) ++ close :: rest =
      xs'.flatMap (fun y => ',' :: write y) ++ close :: rest') : xs = xs' ∧ rest = rest' := by
  induction xs generalizing xs' with
  | nil =>
    cases xs' with
    | nil => exact ⟨rfl, (List.cons.inj h).2⟩
    | cons x' xs' => exact absurd (List.cons.inj h).1 hcomma
  | cons x xs ih =>
    cases xs' with
    | nil => exact absurd (List.cons.inj h).1.symm hcomma
    | cons x' xs' =>
      have htexts : write x ++ (xs.flatMap (fun y => ',' :: write y) ++ close :: rest) =
          write x' ++ (xs'.flatMap (fun y => ',' :: write y) ++ close :: rest') := by
        simpa using h
      obtain ⟨rfl, hrest⟩ := hxs x List.mem_cons_self x' _ _ (hxs' x' List.mem_cons_self)
        (endsValue_flatMap xs hclose rest) (endsValue_flatMap xs' hclose rest') htexts
      obtain ⟨rfl, rfl⟩ := ih (fun y hy => hxs y (List.mem_cons_of_mem x hy))
        (fun y hy => hxs' y (List.mem_cons_of_mem x hy)) hrest
      exact ⟨rfl, rfl⟩

/-- A list is known by the texts of its members, if each of them is known by its text. -/
theorem eq_of_separated_append {close : Char} (hclose : isDelimiter close = true)
    (hcomma : close ≠ ',') (hopening : ∀ x, P x → openingOf (write x) ≠ none) {xs xs' : List α}
    {rest rest' : List Char} (hxs : ∀ x ∈ xs, P x ∧ Legible P write x) (hxs' : ∀ x ∈ xs', P x)
    (h : separated write xs ++ close :: rest = separated write xs' ++ close :: rest') :
    xs = xs' ∧ rest = rest' := by
  have hnone := openingOf_of_isDelimiter hclose
  have hsome : ∀ x xs rest, P x → openingOf (separated write (x :: xs) ++ rest) ≠ none := by
    intro x xs rest hx
    obtain ⟨o, ho⟩ := Option.ne_none_iff_exists'.mp (hopening x hx)
    rw [separated, List.append_assoc, openingOf_append ho]
    simp
  cases xs with
  | nil =>
    cases xs' with
    | nil => exact ⟨rfl, (List.cons.inj h).2⟩
    | cons x' xs' =>
      refine absurd ?_ (hsome x' xs' (close :: rest') (hxs' x' List.mem_cons_self))
      rw [← h]
      exact hnone rest
  | cons x xs =>
    cases xs' with
    | nil =>
      refine absurd ?_ (hsome x xs (close :: rest) (hxs x List.mem_cons_self).1)
      rw [h]
      exact hnone rest'
    | cons x' xs' =>
      rw [separated, separated, List.append_assoc, List.append_assoc] at h
      obtain ⟨rfl, hrest⟩ := (hxs x List.mem_cons_self).2 x' _ _ (hxs' x' List.mem_cons_self)
        (endsValue_flatMap xs hclose rest) (endsValue_flatMap xs' hclose rest') h
      obtain ⟨rfl, rfl⟩ := eq_of_flatMap_append hclose hcomma
        (fun y hy => (hxs y (List.mem_cons_of_mem x hy)).2)
        (fun y hy => hxs' y (List.mem_cons_of_mem x hy)) hrest
      exact ⟨rfl, rfl⟩

end Lists

/-- An entry of a compound: its name, a colon, and its value. -/
def entryChars (e : String × Value) : List Char := snbtString e.1 ++ ':' :: e.2.snbtChars

theorem snbtItems_eq (items : List Value) :
    snbtItems items = items.flatMap fun v => ',' :: v.snbtChars := by
  induction items with
  | nil => rw [snbtItems, List.flatMap_nil]
  | cons v items ih => rw [snbtItems, List.flatMap_cons, ih, List.cons_append]

theorem snbtEntries_eq (entries : List (String × Value)) :
    snbtEntries entries = entries.flatMap fun e => ',' :: entryChars e := by
  induction entries with
  | nil => rw [snbtEntries, List.flatMap_nil]
  | cons e entries ih =>
    obtain ⟨name, v⟩ := e
    rw [snbtEntries, List.flatMap_cons, ih]
    simp [entryChars]

namespace Value

theorem snbtChars_list (items : List Value) :
    (list items).snbtChars = '[' :: (separated snbtChars items ++ [']']) := by
  cases items with
  | nil => rw [snbtChars, separated, List.nil_append]
  | cons v items => rw [snbtChars, separated, snbtItems_eq]

theorem snbtChars_compound (entries : List (String × Value)) :
    (compound entries).snbtChars = '\x7b' :: (separated entryChars entries ++ ['\x7d']) := by
  cases entries with
  | nil => rw [snbtChars, separated, List.nil_append]
  | cons e entries =>
    obtain ⟨name, v⟩ := e
    rw [snbtChars, separated, snbtEntries_eq]
    simp [entryChars]

def opening : Value → Opening
  | string s => if isPlainWord s.toList then .atom else .quote
  | list _ => .bracket
  | compound _ => .brace
  | _ => .atom

theorem isAtom_iff (v : Value) : v.isAtom = true ↔ v.opening = .atom := by
  cases v with
  | string s =>
    rw [isAtom, opening]
    split_ifs with hword
    · simp [hword]
    · simp [hword]
  | _ => simp [isAtom, opening]

theorem Finite.openingOf_snbtChars {v : Value} (hv : v.Finite) :
    openingOf v.snbtChars = some v.opening := by
  by_cases hatom : v.isAtom = true
  · rw [openingOf_of_isRun (hv.isRun_of_isAtom hatom), v.isAtom_iff.mp hatom]
  · cases hv with
    | string s =>
      have hword : ¬isPlainWord s.toList = true := hatom
      rw [snbtChars_string_of_not_isPlainWord hword, opening, if_neg hword]
      rfl
    | list _ =>
      rw [snbtChars_list]
      rfl
    | compound _ =>
      rw [snbtChars_compound]
      rfl
    | _ => exact absurd rfl hatom

/-- Equal texts begin in the same way. -/
theorem Finite.opening_eq {v w : Value} (hv : v.Finite) (hw : w.Finite) {rest rest' : List Char}
    (h : v.snbtChars ++ rest = w.snbtChars ++ rest') : v.opening = w.opening := by
  have hleft := openingOf_append hv.openingOf_snbtChars rest
  have hright := openingOf_append hw.openingOf_snbtChars rest'
  rw [h, hright] at hleft
  exact (Option.some.inj hleft).symm

theorem Finite.legible_of_isAtom {v : Value} (hv : v.Finite) (hatom : v.isAtom = true) :
    Legible Finite snbtChars v := by
  intro w rest rest' hw hrest hrest' h
  have hopening := hv.opening_eq hw h
  have hatom' : w.isAtom = true := by
    rw [w.isAtom_iff, ← hopening]
    exact v.isAtom_iff.mp hatom
  obtain ⟨htake, hdrop⟩ := (hv.isRun_of_isAtom hatom).split_append
    fun c hc => isAtomChar_eq_false_of_isDelimiter (hrest c hc)
  obtain ⟨htake', hdrop'⟩ := (hw.isRun_of_isAtom hatom').split_append
    fun c hc => isAtomChar_eq_false_of_isDelimiter (hrest' c hc)
  rw [h] at htake hdrop
  refine ⟨?_, hdrop.symm.trans hdrop'⟩
  calc v = atomOf v.snbtChars := (hv.atomOf_snbtChars hatom).symm
    _ = atomOf w.snbtChars := by rw [← htake, htake']
    _ = w := hw.atomOf_snbtChars hatom'

theorem legible_string (s : String) : Legible Finite snbtChars (string s) := by
  by_cases hword : isPlainWord s.toList = true
  · exact (Finite.string s).legible_of_isAtom hword
  intro w rest rest' hw hrest hrest' h
  have hopening := (Finite.string s).opening_eq hw h
  rw [opening, if_neg hword] at hopening
  cases hw with
  | string s' =>
    have hword' : ¬isPlainWord s'.toList = true := by
      intro hword'
      rw [opening, if_pos hword'] at hopening
      cases hopening
    rw [snbtChars_string_of_not_isPlainWord hword, snbtChars_string_of_not_isPlainWord hword'] at h
    have hdecode := Quoted.decode_encode s.toList rest
    rw [h, Quoted.decode_encode, Option.some_inj, Prod.mk.injEq] at hdecode
    obtain ⟨hs, hrest⟩ := hdecode
    exact ⟨congrArg string (String.toList_inj.mp hs.symm), hrest.symm⟩
  | _ => cases hopening

theorem legible_entry {name : String} {v : Value} (hv : Legible Finite snbtChars v) :
    Legible (fun e => e.2.Finite) entryChars (name, v) := by
  intro e rest rest' he hrest hrest' h
  obtain ⟨name', w⟩ := e
  have hcolon : ∀ cs, EndsValue (':' :: cs) := by
    intro cs c hc
    cases hc
    rfl
  have hnames : (string name).snbtChars ++ ':' :: (v.snbtChars ++ rest) =
      (string name').snbtChars ++ ':' :: (w.snbtChars ++ rest') := by
    rw [snbtChars, snbtChars]
    simpa [entryChars] using h
  obtain ⟨hname, hvalues⟩ :=
    legible_string name (string name') _ _ (.string name') (hcolon _) (hcolon _) hnames
  obtain ⟨rfl, rfl⟩ := hv w rest rest' he hrest hrest' (List.cons.inj hvalues).2
  cases hname
  exact ⟨rfl, rfl⟩

theorem openingOf_entryChars (e : String × Value) : openingOf (entryChars e) ≠ none := by
  have hopening := (Finite.string e.1).openingOf_snbtChars
  rw [snbtChars] at hopening
  rw [entryChars, openingOf_append hopening]
  simp

theorem legible_list {items : List Value}
    (hitems : ∀ v ∈ items, v.Finite ∧ Legible Finite snbtChars v) :
    Legible Finite snbtChars (list items) := by
  intro w rest rest' hw hrest hrest' h
  have hopening := (Finite.list fun v hv => (hitems v hv).1).opening_eq hw h
  cases hw with
  | @list items' hitems' =>
    rw [snbtChars_list, snbtChars_list] at h
    have hmembers : separated snbtChars items ++ ']' :: rest =
        separated snbtChars items' ++ ']' :: rest' := by
      simpa using h
    have hbegins : ∀ v : Value, v.Finite → openingOf v.snbtChars ≠ none := by
      intro v hv
      rw [hv.openingOf_snbtChars]
      exact Option.some_ne_none _
    obtain ⟨rfl, rfl⟩ := eq_of_separated_append rfl (by decide) hbegins hitems hitems' hmembers
    exact ⟨rfl, rfl⟩
  | string s =>
    rw [opening, opening] at hopening
    split_ifs at hopening
  | _ => cases hopening

theorem legible_compound {entries : List (String × Value)}
    (hentries : ∀ e ∈ entries, e.2.Finite ∧ Legible Finite snbtChars e.2) :
    Legible Finite snbtChars (compound entries) := by
  intro w rest rest' hw hrest hrest' h
  have hopening := (Finite.compound fun e he => (hentries e he).1).opening_eq hw h
  cases hw with
  | @compound entries' hentries' =>
    rw [snbtChars_compound, snbtChars_compound] at h
    have hmembers : separated entryChars entries ++ '\x7d' :: rest =
        separated entryChars entries' ++ '\x7d' :: rest' := by
      simpa using h
    obtain ⟨rfl, rfl⟩ := eq_of_separated_append rfl (by decide)
      (fun e _ => openingOf_entryChars e)
      (fun e he => ⟨(hentries e he).1, legible_entry (hentries e he).2⟩) hentries' hmembers
    exact ⟨rfl, rfl⟩
  | string s =>
    rw [opening, opening] at hopening
    split_ifs at hopening
  | _ => cases hopening

/-- A value with finite numbers is known by its text. -/
theorem Finite.legible {v : Value} (hv : v.Finite) : Legible Finite snbtChars v := by
  induction hv with
  | list hitems ih => exact legible_list fun v hv => ⟨hitems v hv, ih v hv⟩
  | compound hentries ih => exact legible_compound fun e he => ⟨hentries e he, ih e he⟩
  | string s => exact legible_string s
  | byte n => exact (Finite.byte n).legible_of_isAtom rfl
  | short n => exact (Finite.short n).legible_of_isAtom rfl
  | int n => exact (Finite.int n).legible_of_isAtom rfl
  | long n => exact (Finite.long n).legible_of_isAtom rfl
  | float isFinite => exact (Finite.float isFinite).legible_of_isAtom rfl
  | double isFinite => exact (Finite.double isFinite).legible_of_isAtom rfl

/-- Values whose floats and doubles are finite at every depth are the same if their SNBT is. -/
theorem eq_of_snbt_eq {v w : Value} (hv : v.Finite) (hw : w.Finite) (h : v.snbt = w.snbt) :
    v = w := by
  have hchars : v.snbtChars ++ [] = w.snbtChars ++ [] := by
    rw [List.append_nil, List.append_nil]
    exact String.ofList_injective h
  have hnil : EndsValue [] := nofun
  exact (hv.legible w [] [] hw hnil hnil hchars).1

/-- A name that comes again keeps its place; minus zero is told from zero. -/
theorem eq_of_snbt_eq_replaced :
    let minusZero : Binary32 := ⟨true, 0, by decide⟩
    let tags : Value := .list [.string "a,b", .byte (-1), .list []]
    let v := (Compound.ofList [("x", .float ⟨false, 0, by decide⟩), ("tags", tags),
      ("x", .float minusZero)]).toValue
    let w : Value := .compound [("x", .float minusZero), ("tags", tags)]
    v.Finite ∧ w.Finite ∧ v.snbt = w.snbt ∧ v = w := by
  intro minusZero tags v w
  have htags : tags.Finite := by
    refine .list ?_
    intro item hitem
    simp only [List.mem_cons, List.not_mem_nil, or_false] at hitem
    rcases hitem with rfl | rfl | rfl
    · exact .string _
    · exact .byte _
    · exact .list fun _ h => nomatch h
  have hw : w.Finite := by
    refine .compound ?_
    intro e he
    simp only [List.mem_cons, List.not_mem_nil, or_false] at he
    rcases he with rfl | rfl
    · exact .float (by decide)
    · exact htags
  have hv : v.Finite := hw
  have hsnbt : v.snbt = w.snbt := by decide +kernel
  exact ⟨hv, hw, hsnbt, eq_of_snbt_eq hv hw hsnbt⟩

end Value
end CommandScript
