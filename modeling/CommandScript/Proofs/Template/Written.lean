import CommandScript.Proofs.Template.Filling

/-! The written form of segments. A text is scanned into the only segments in canonical form whose
written form it is, up to the first dollar sign that begins neither a pair nor a placeholder. -/
namespace CommandScript.Template
open Text

/-- A text with two dollar signs for each of its own. -/
def doubled (cs : List Char) : List Char :=
  cs.flatMap fun c => if c = '$' then ['$', '$'] else [c]

/-- How a segment is written in a template. -/
def Segment.written : Segment → List Char
  | literal text => doubled text.toList
  | placeholder name => '$' :: (name.toList ++ ['$'])

def writtenAll (segments : List Segment) : List Char := segments.flatMap Segment.written

/-- Text without a dollar sign. -/
def Segment.IsPlain : Segment → Prop
  | literal text => ∀ c ∈ text.toList, c ≠ '$'
  | placeholder _ => False

/-- A literal is a dollar sign, or some text without one that is as long as it can be; the name of a
placeholder is not empty and has only characters of names. -/
inductive Canonical : List Segment → Prop
  | nil : Canonical []
  | plain {text : String} {rest : List Segment} (nonempty : text.toList ≠ [])
      (noDollar : ∀ c ∈ text.toList, c ≠ '$') (longest : ∀ s ∈ rest.head?, ¬s.IsPlain)
      (others : Canonical rest) : Canonical (.literal text :: rest)
  | dollar {rest : List Segment} (others : Canonical rest) : Canonical (.literal "$" :: rest)
  | placeholder {name : String} {rest : List Segment} (nonempty : name.toList ≠ [])
      (chars : ∀ c ∈ name.toList, InNameAlphabet c) (others : Canonical rest) :
      Canonical (.placeholder name :: rest)

/-- What is left of a text, from an offset on, where its segments end: nothing, or a dollar sign and
characters of a name up to the end or up to one that is neither of a name nor a dollar sign. -/
inductive Remains (offset : Nat) : List Char → Option MarkerError → Prop
  | nothing : Remains offset [] none
  | unterminated {name : List Char} (chars : ∀ c ∈ name, InNameAlphabet c) :
      Remains offset ('$' :: name) (some (.unterminated offset))
  | invalid {name after : List Char} {c : Char} (chars : ∀ c ∈ name, InNameAlphabet c)
      (notName : ¬InNameAlphabet c) (notDollar : c ≠ '$') :
      Remains offset ('$' :: (name ++ c :: after)) (some (.invalidCharacter offset c))

theorem writtenAll_cons (s : Segment) (segments : List Segment) :
    writtenAll (s :: segments) = s.written ++ writtenAll segments := List.flatMap_cons

theorem doubled_dollar (cs : List Char) : doubled ('$' :: cs) = '$' :: '$' :: doubled cs :=
  List.flatMap_cons

theorem doubled_cons {c : Char} (h : c ≠ '$') (cs : List Char) :
    doubled (c :: cs) = c :: doubled cs := by
  unfold doubled
  rw [List.flatMap_cons, if_neg h, List.singleton_append]

theorem doubled_of_plain {cs : List Char} (h : ∀ c ∈ cs, c ≠ '$') : doubled cs = cs := by
  induction cs with
  | nil => rfl
  | cons c cs ih =>
    have hrest : doubled cs = cs := ih fun c' hc' => h c' (List.mem_cons_of_mem c hc')
    rw [doubled_cons (h c List.mem_cons_self), hrest]

section
variable {run name rest behind : List Char} {c : Char}

theorem scanFrom_plain (offset : Nat) (hne : run ≠ []) (hrun : ∀ x ∈ run, x ≠ '$')
    (hrest : ∀ x ∈ rest.head?, x = '$') :
    scanFrom offset (run ++ rest) =
      .cons (.literal (String.ofList run)) (scanFrom (offset + byteSize run) rest) := by
  obtain ⟨c, run, rfl⟩ := List.exists_cons_of_ne_nil hne
  have hplain : ∀ x ∈ run, isPlain x = true := by
    intro x hx
    simpa [isPlain] using hrun x (List.mem_cons_of_mem c hx)
  have hc : isPlain c = true := by simpa [isPlain] using hrun c List.mem_cons_self
  have hstop : ∀ x ∈ rest.head?, isPlain x = false := by
    intro x hx
    simpa [isPlain] using hrest x hx
  obtain ⟨htake, hdrop⟩ := (splits_iff isPlain (run ++ rest) run rest).mpr
    ⟨rfl, hplain, hstop⟩
  rw [List.cons_append, scanFrom, if_pos hc, htake, hdrop]

theorem scanFrom_dollar (offset : Nat) (rest : List Char) :
    scanFrom offset ('$' :: '$' :: rest) = .cons (.literal "$") (scanFrom (offset + 2) rest) := by
  rw [scanFrom, if_neg (by decide), if_pos List.head?_cons, List.tail_cons]

theorem scanFrom_placeholder (offset : Nat) (hne : name ≠ [])
    (hname : ∀ x ∈ name, InNameAlphabet x) (rest : List Char) :
    scanFrom offset ('$' :: (name ++ '$' :: rest)) =
      .cons (.placeholder (String.ofList name)) (scanFrom (offset + byteSize name + 2) rest) := by
  have hhead : (name ++ '$' :: rest).head? ≠ some '$' := by
    intro h
    obtain ⟨behind, hbehind⟩ := List.head?_eq_some_iff.mp h
    exact name_append_ne_dollar hne hname hbehind
  obtain ⟨htake, hdrop⟩ := splits_name rest dollar_not_in_nameAlphabet hname
  rw [scanFrom, if_neg (by decide), if_neg hhead, htake]
  dsimp only
  split
  · next h =>
    rw [hdrop] at h
    cases h
  · next c after h =>
    rw [hdrop] at h
    cases h
    rw [if_pos rfl]

/-- Where no segment begins any more, the scan ends with the error of what is left, if any. -/
theorem scanFrom_of_remains {offset : Nat} {error : Option MarkerError}
    (h : Remains offset rest error) : scanFrom offset rest = ⟨[], error⟩ := by
  have hhead : ∀ {name after : List Char}, (∀ x ∈ name, InNameAlphabet x) →
      after.head? ≠ some '$' → (name ++ after).head? ≠ some '$' := by
    intro name after hname hafter
    cases name with
    | nil => exact hafter
    | cons x name =>
      intro hx
      cases hx
      exact dollar_not_in_nameAlphabet (hname '$' List.mem_cons_self)
  cases h with
  | nothing => rw [scanFrom]; rfl
  | @unterminated name hname =>
    have hhead' : (name ++ []).head? ≠ some '$' := hhead hname (by simp)
    rw [List.append_nil] at hhead'
    rw [scanFrom, if_neg (by decide), if_neg hhead']
    dsimp only
    split
    · rfl
    · next c after h =>
      have hall := fun x hx => (isNameChar_iff x).mpr (hname x hx)
      rw [List.dropWhile_eq_nil_iff.mpr hall] at h
      cases h
  | @invalid name after c hname hc hdollar =>
    have hhead' : (name ++ c :: after).head? ≠ some '$' := hhead hname (by simpa using hdollar)
    obtain ⟨-, hdrop⟩ := splits_name after hc hname
    rw [scanFrom, if_neg (by decide), if_neg hhead']
    dsimp only
    split
    · next h =>
      rw [hdrop] at h
      cases h
    · next c' after' h =>
      rw [hdrop] at h
      cases h
      rw [if_neg hdollar]
      rfl

end

theorem Remains.head_eq_dollar {offset : Nat} {rest : List Char} {error : Option MarkerError}
    (h : Remains offset rest error) : ∀ x ∈ rest.head?, x = '$' := by
  intro x hx
  cases h with
  | nothing => cases hx
  | unterminated => exact (Option.some.inj hx).symm
  | invalid => exact (Option.some.inj hx).symm

theorem Canonical.head_written {segments : List Segment} (h : Canonical segments)
    (hhead : ∀ s ∈ segments.head?, ¬s.IsPlain) {rest : List Char}
    (hrest : ∀ x ∈ rest.head?, x = '$') :
    ∀ x ∈ (writtenAll segments ++ rest).head?, x = '$' := by
  intro x hx
  cases h with
  | nil => exact hrest x hx
  | plain nonempty noDollar => exact absurd noDollar (hhead _ rfl)
  | dollar => exact (Option.some.inj hx).symm
  | placeholder => exact (Option.some.inj hx).symm

theorem writtenAll_plain {text : String} (h : ∀ c ∈ text.toList, c ≠ '$')
    (segments : List Segment) :
    writtenAll (.literal text :: segments) = text.toList ++ writtenAll segments := by
  rw [writtenAll_cons, Segment.written, doubled_of_plain h]

theorem writtenAll_dollar (segments : List Segment) :
    writtenAll (.literal "$" :: segments) = '$' :: '$' :: writtenAll segments :=
  writtenAll_cons _ segments

theorem writtenAll_placeholder (name : String) (segments : List Segment) :
    writtenAll (.placeholder name :: segments) =
      '$' :: (name.toList ++ '$' :: writtenAll segments) := by
  rw [writtenAll_cons, Segment.written, List.cons_append, List.append_assoc, List.singleton_append]

theorem utf8Size_dollar : '$'.utf8Size = 1 := rfl

theorem byteSize_writtenAll_dollar (offset : Nat) (segments : List Segment) :
    offset + byteSize (writtenAll (.literal "$" :: segments)) =
      offset + 2 + byteSize (writtenAll segments) := by
  rw [writtenAll_dollar, byteSize_cons, byteSize_cons, utf8Size_dollar]
  omega

theorem byteSize_writtenAll_placeholder (offset : Nat) (name : String) (segments : List Segment) :
    offset + byteSize (writtenAll (.placeholder name :: segments)) =
      offset + byteSize name.toList + 2 + byteSize (writtenAll segments) := by
  rw [writtenAll_placeholder, byteSize_cons, byteSize_append, byteSize_cons, utf8Size_dollar]
  omega

/-- Segments in canonical form are scanned back from their written form, and so is the error of what
follows them. -/
theorem scanFrom_writtenAll {segments : List Segment} (h : Canonical segments) {offset : Nat}
    {rest : List Char} {error : Option MarkerError}
    (hrest : Remains (offset + byteSize (writtenAll segments)) rest error) :
    scanFrom offset (writtenAll segments ++ rest) = ⟨segments, error⟩ := by
  induction h generalizing offset with
  | nil => exact scanFrom_of_remains hrest
  | @plain text others nonempty noDollar longest canonical ih =>
    rw [writtenAll_plain noDollar, byteSize_append, ← Nat.add_assoc] at hrest
    have hhead := canonical.head_written longest hrest.head_eq_dollar
    rw [writtenAll_plain noDollar, List.append_assoc, scanFrom_plain offset nonempty noDollar hhead,
      ih hrest, String.ofList_toList]
    rfl
  | @dollar others _ ih =>
    rw [byteSize_writtenAll_dollar] at hrest
    rw [writtenAll_dollar, List.cons_append, List.cons_append, scanFrom_dollar, ih hrest]
    rfl
  | @placeholder name others nonempty chars _ ih =>
    rw [byteSize_writtenAll_placeholder] at hrest
    rw [writtenAll_placeholder, List.cons_append, List.append_assoc, List.cons_append,
      scanFrom_placeholder offset nonempty chars, ih hrest, String.ofList_toList]
    rfl

theorem not_isPlain_of_head {offset : Nat} {cs : List Char} (h : ∀ x ∈ cs.head?, x = '$') :
    ∀ s ∈ (scanFrom offset cs).segments.head?, ¬s.IsPlain := by
  fun_cases scanFrom offset cs with
  | case1 => nofun
  | case2 c rest hc plain =>
    have hdollar : c = '$' := h c rfl
    rw [hdollar] at hc
    cases hc
  | case3 c rest =>
    intro s hs hplain
    cases hs
    exact hplain '$' List.mem_cons_self rfl
  | case4 => nofun
  | case5 =>
    intro s hs hplain
    cases hs
    exact hplain
  | case6 => nofun

/-- Every text is the written form of the segments scanned from it, and of what remains behind
them. -/
theorem canonical_scanFrom (offset : Nat) (cs : List Char) :
    Canonical (scanFrom offset cs).segments ∧
      ∃ rest, cs = writtenAll (scanFrom offset cs).segments ++ rest ∧
        Remains (offset + byteSize (writtenAll (scanFrom offset cs).segments)) rest
          (scanFrom offset cs).error := by
  have hdollar : ∀ c, ¬isPlain c = true → c = '$' := by simp [isPlain]
  fun_induction scanFrom offset cs with
  | case1 offset => exact ⟨.nil, [], rfl, .nothing⟩
  | case2 offset c rest hc plain ih =>
    obtain ⟨hcanonical, behind, hbehind, hremains⟩ := ih
    obtain ⟨hplain, hsplit⟩ := plain_run rest hc
    have hnoDollar : ∀ c' ∈ (String.ofList plain).toList, c' ≠ '$' := by
      intro c' hc'
      rw [String.toList_ofList] at hc'
      simpa [isPlain] using hplain c' hc'
    have hstop : ∀ x ∈ (rest.dropWhile isPlain).head?, x = '$' := by
      intro x hx
      have hnot := List.head?_dropWhile_not isPlain rest
      rw [hx] at hnot
      simpa [isPlain] using hnot
    refine ⟨.plain (by simp [plain]) hnoDollar (not_isPlain_of_head hstop) hcanonical, behind,
      ?_, ?_⟩
    · rw [Scan.cons, writtenAll_plain hnoDollar, String.toList_ofList, List.append_assoc, ← hbehind]
      exact hsplit
    · rw [Scan.cons, writtenAll_plain hnoDollar, String.toList_ofList, byteSize_append,
        ← Nat.add_assoc]
      exact hremains
  | case3 offset c rest hc hhead ih =>
    obtain ⟨hcanonical, behind, hbehind, hremains⟩ := ih
    obtain ⟨tail, rfl⟩ := List.head?_eq_some_iff.mp hhead
    rw [hdollar c hc]
    refine ⟨.dollar hcanonical, behind, ?_, ?_⟩
    · rw [Scan.cons, writtenAll_dollar, List.cons_append, List.cons_append, ← hbehind]
      rfl
    · rw [Scan.cons, byteSize_writtenAll_dollar]
      exact hremains
  | case4 offset c rest hc hhead hafter =>
    rw [hdollar c hc]
    refine ⟨.nil, '$' :: rest, rfl, .unterminated ?_⟩
    intro x hx
    exact (isNameChar_iff x).mp (List.dropWhile_eq_nil_iff.mp hafter x hx)
  | case5 offset c rest hc hhead name after hafter ih =>
    obtain ⟨hcanonical, behind, hbehind, hremains⟩ := ih
    have hsplit : rest = name ++ '$' :: after := by
      rw [← hafter]
      exact List.takeWhile_append_dropWhile.symm
    have hne : name ≠ [] := by
      intro hnil
      rw [hsplit, hnil] at hhead
      exact hhead rfl
    have hchars : ∀ c' ∈ (String.ofList name).toList, InNameAlphabet c' := by
      rw [String.toList_ofList]
      exact inNameAlphabet_of_mem_takeWhile
    refine ⟨.placeholder (by simpa using hne) hchars hcanonical, behind, ?_, ?_⟩
    · rw [Scan.cons, writtenAll_placeholder, String.toList_ofList, List.cons_append,
        List.append_assoc, List.cons_append, ← hbehind, hdollar c hc, hsplit]
    · rw [Scan.cons, byteSize_writtenAll_placeholder, String.toList_ofList]
      exact hremains
  | case6 offset c rest hc hhead c' after hafter hc' =>
    have hsplit : rest = rest.takeWhile isNameChar ++ c' :: after := by
      rw [← hafter]
      exact List.takeWhile_append_dropWhile.symm
    have hnot := List.head?_dropWhile_not isNameChar rest
    rw [hafter] at hnot
    have hother : ¬InNameAlphabet c' := by
      rw [← isNameChar_iff]
      exact Bool.eq_false_iff.mp hnot
    rw [hdollar c hc]
    refine ⟨.nil, '$' :: rest, rfl, ?_⟩
    rw [hsplit]
    exact .invalid inNameAlphabet_of_mem_takeWhile hother hc'

/-- A text is scanned into the segments in canonical form that it is the written form of, up to what
remains behind them. -/
theorem scanFrom_eq_iff (offset : Nat) (cs : List Char) (segments : List Segment)
    (error : Option MarkerError) :
    scanFrom offset cs = ⟨segments, error⟩ ↔
      Canonical segments ∧ ∃ rest, cs = writtenAll segments ++ rest ∧
        Remains (offset + byteSize (writtenAll segments)) rest error := by
  constructor
  · intro h
    have hscan := canonical_scanFrom offset cs
    rw [h] at hscan
    exact hscan
  · rintro ⟨hcanonical, rest, rfl, hremains⟩
    exact scanFrom_writtenAll hcanonical hremains

theorem fills_doubled (given : Compound) (cs : List Char) : Fills given (doubled cs) cs := by
  induction cs with
  | nil => exact .done
  | cons c cs ih =>
    by_cases hc : c = '$'
    · rw [hc, doubled_dollar]
      exact .dollar ih
    · rw [doubled_cons hc]
      exact .plain hc ih

theorem exists_literals {segments : List Segment} (h : ∀ name, .placeholder name ∉ segments) :
    ∃ literals : List String, segments = literals.map .literal := by
  induction segments with
  | nil => exact ⟨[], rfl⟩
  | cons s segments ih =>
    obtain ⟨literals, rfl⟩ := ih fun name hname => h name (List.mem_cons_of_mem s hname)
    cases s with
    | literal text => exact ⟨text :: literals, rfl⟩
    | placeholder name => exact absurd List.mem_cons_self (h name)

theorem Segment.renderAll_literals (value? : String → Option String) (literals : List String) :
    renderAll value? (literals.map .literal) = String.join literals := by
  have hid : (render value? ∘ literal) = id := rfl
  rw [renderAll, List.map_map, hid, List.map_id]

/-- With its dollar signs doubled, a text is scanned into literals that make it up. -/
theorem scan_doubled (text : String) :
    ∃ literals : List String, scan (String.ofList (doubled text.toList)) =
      ⟨literals.map .literal, none⟩ ∧ String.join literals = text := by
  have hfills := fills_doubled .empty text.toList
  obtain ⟨herror, hvalues⟩ := scanFrom_of_fills 0 ⟨_, hfills⟩
  have hnone : ∀ name, .placeholder name ∉ (scanFrom 0 (doubled text.toList)).segments := by
    intro name hname
    obtain ⟨v, hv⟩ := hvalues name hname
    cases hv
  obtain ⟨literals, hliterals⟩ := exists_literals hnone
  have hrendered : Fills .empty (doubled text.toList) (Segment.renderAll (fun _ => none)
      (scanFrom 0 (doubled text.toList)).segments).toList :=
    fills_of_scanFrom herror fun name hname => absurd hname (hnone name)
  rw [hliterals, Segment.renderAll_literals] at hrendered
  refine ⟨literals, ?_, String.toList_inj.mp (hrendered.unique hfills)⟩
  rw [scan, String.toList_ofList, ← hliterals, ← herror]

/-- Scanning loses nothing. Without an error the text is the written form of its segments. With one,
the text is their written form up to a dollar sign at the offset of the error, which has only
characters of names behind it, or a character that is not of a name as the first one that is none.
Segments in canonical form are scanned back from their written form, and a text with doubled dollar
signs is scanned into literals that make it up. -/
theorem scan_lossless (text : String) :
    Canonical (scan text).segments ∧
    ((scan text).error = none → writtenAll (scan text).segments = text.toList) ∧
    (∀ e, (scan text).error = some e → ∃ before behind, text.toList = before ++ '$' :: behind ∧
      writtenAll (scan text).segments = before ∧
      ((e = .unterminated (byteSize before) ∧ ∀ c ∈ behind, InNameAlphabet c) ∨
        ∃ name c after, behind = name ++ c :: after ∧ (∀ x ∈ name, InNameAlphabet x) ∧
          ¬InNameAlphabet c ∧ c ≠ '$' ∧ e = .invalidCharacter (byteSize before) c)) ∧
    (∀ segments, Canonical segments →
      scan (String.ofList (writtenAll segments)) = ⟨segments, none⟩) ∧
    ∃ literals : List String, scan (String.ofList (doubled text.toList)) =
      ⟨literals.map .literal, none⟩ ∧ String.join literals = text := by
  obtain ⟨hcanonical, rest, hsplit, hremains⟩ :=
    (scanFrom_eq_iff 0 text.toList (scan text).segments (scan text).error).mp rfl
  rw [Nat.zero_add] at hremains
  refine ⟨hcanonical, ?_, ?_, ?_, scan_doubled text⟩
  · intro hnone
    rw [hnone] at hremains
    cases hremains with
    | nothing => rw [hsplit, List.append_nil]
  · intro e he
    rw [he] at hremains
    cases hremains with
    | @unterminated name chars => exact ⟨_, name, hsplit, rfl, Or.inl ⟨rfl, chars⟩⟩
    | @invalid name after c chars notName notDollar =>
      exact ⟨_, _, hsplit, rfl, Or.inr ⟨name, c, after, rfl, chars, notName, notDollar, rfl⟩⟩
  · intro segments hsegments
    rw [scan, String.toList_ofList]
    exact (scanFrom_eq_iff 0 _ segments none).mpr
      ⟨hsegments, [], (List.append_nil _).symm, .nothing⟩

/-- Behind a pair and a placeholder there is a name that nothing closes. Its dollar sign is the
eleventh character, with one of two bytes in front of it, and what comes before is scanned alone to
the same segments. -/
theorem scan_lossless_unclosed_name :
    let text := "é$$ $who$ $b d"
    (scan text).error = some (.invalidCharacter 11 ' ') ∧
      (∃ before name after, text.toList = before ++ '$' :: (name ++ ' ' :: after) ∧
        writtenAll (scan text).segments = before ∧ byteSize before = 11 ∧
        ∀ c ∈ name, InNameAlphabet c) ∧
      scan (String.ofList (writtenAll (scan text).segments)) = ⟨(scan text).segments, none⟩ := by
  intro text
  have herror : (scan text).error = some (.invalidCharacter 11 ' ') := by decide +kernel
  obtain ⟨hcanonical, -, hfault, hback, -⟩ := scan_lossless text
  refine ⟨herror, ?_, hback _ hcanonical⟩
  obtain ⟨before, behind, htext, hwritten, hcause⟩ := hfault _ herror
  rcases hcause with ⟨hunterminated, -⟩ | ⟨name, c, after, rfl, hname, -, -, hinvalid⟩
  · cases hunterminated
  · obtain ⟨hoffset, rfl⟩ := MarkerError.invalidCharacter.inj hinvalid
    exact ⟨before, name, after, htext, hwritten, hoffset.symm, hname⟩

end CommandScript.Template
