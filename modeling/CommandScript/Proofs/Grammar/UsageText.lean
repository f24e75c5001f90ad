import CommandScript.Proofs.Grammar.NumberText
import CommandScript.Proofs.Grammar.UsageLines
import CommandScript.Proofs.Stages

/-! The grammar of usage lines. A line is read if and only if it follows the grammar, and the
written form of a list of elements is read back as that list. -/
namespace CommandScript.Grammar
open Numeric Text

/-- The text of one side of bounds, empty where there is no number. -/
inductive SideText {α : Type} (number : List Char → α → Prop) : List Char → Option α → Prop
  | absent : SideText number [] none
  | given {text : List Char} {x : α} (isNumber : number text x) : SideText number text (some x)

/-- The text of bounds: none, or two sides with two points between them, in brackets. -/
inductive BoundsText {α : Type} (number : List Char → α → Prop) : List Char → Bounds α → Prop
  | free : BoundsText number [] .free
  | range {low high : List Char} {min max : Option α} (isLow : SideText number low min)
      (isHigh : SideText number high max) :
      BoundsText number ('(' :: (low ++ '.' :: '.' :: (high ++ [')']))) ⟨min, max⟩

/-- The text of a kind: its keyword, and bounds behind the keyword of a number. -/
inductive KindText : List Char → Kind → Prop
  | word : KindText "word".toList .word
  | string : KindText "string".toList .string
  | greedy : KindText "greedy".toList .greedy
  | bool : KindText "bool".toList .bool
  | resource : KindText "resource".toList .resource
  | integer {text : List Char} {b : Bounds Int64} (isBounds : BoundsText IntegerText text b) :
      KindText ("integer".toList ++ text) (.integer b)
  | float {text : List Char} {b : Bounds Binary64} (isBounds : BoundsText FloatText text b) :
      KindText ("float".toList ++ text) (.float b)

/-- The text of a literal: letters, digits, underscores, hyphens and points. -/
def LiteralText (text : List Char) : Prop :=
  text ≠ [] ∧ ∀ c ∈ text, c.isAlphanum = true ∨ c = '_' ∨ c = '-' ∨ c = '.'

/-- The text of the name of an argument: letters, digits and underscores. -/
def NameText (text : List Char) : Prop := text ≠ [] ∧ ∀ c ∈ text, c.isAlphanum = true ∨ c = '_'

/-- The text of an element: a literal as it is, or the name and the kind of an argument. -/
inductive ElementText : List Char → Element → Prop
  | literal {text : List Char} (isLiteral : LiteralText text) :
      ElementText text (.literal (String.ofList text))
  | argument {name text : List Char} {kind : Kind} (isName : NameText name)
      (isKind : KindText text kind) :
      ElementText ('<' :: (name ++ ':' :: (text ++ ['>']))) (.argument (String.ofList name) kind)

/-- The order of the elements of a usage: a literal first, and a greedy argument at most in the last
place. -/
structure Arranged (es : List Element) : Prop where
  literalFirst : ∃ text rest, es = .literal text :: rest
  greedyLast : ∀ name, .argument name .greedy ∉ es.dropLast

/-- A line is the text of elements with one space between neighbours. -/
structure UsageText (line : String) (es : List Element) : Prop where
  words : ∃ words, List.Forall₂ ElementText words es ∧ line.toList = [' '].intercalate words
  arranged : Arranged es

section Readers

variable {α : Type} {read : List Char → Option (α × List Char)} {number : List Char → α → Prop}
  {cs rest : List Char}

/-- The ends of a side of bounds: two points, or the closing bracket. -/
def EndsSide (rest : List Char) : Prop :=
  (∃ behind, rest = '.' :: '.' :: behind) ∨ ∃ behind, rest = ')' :: behind

/-- A reader takes the texts of numbers, and where a side of bounds ends it takes all of them. -/
structure Reads (read : List Char → Option (α × List Char)) (number : List Char → α → Prop) :
    Prop where
  sound : ∀ {cs rest x}, read cs = some (x, rest) → ∃ text, cs = text ++ rest ∧ number text x
  complete : ∀ {text rest x}, number text x → EndsSide rest →
    read (text ++ rest) = some (x, rest)
  refuses : ∀ {rest}, EndsSide rest → read rest = none

theorem EndsSide.noDigit (h : EndsSide rest) : NoDigit rest := by
  intro c hc
  rcases h with ⟨behind, rfl⟩ | ⟨behind, rfl⟩
  · cases hc
    rfl
  · cases hc
    rfl

theorem EndsSide.readFraction_eq_none (h : EndsSide rest) : readFraction rest = none := by
  rcases h with ⟨behind, rfl⟩ | ⟨behind, rfl⟩
  · rfl
  · rfl

theorem reads_integer : Reads readInteger IntegerText where
  sound := by
    intro cs rest n h
    obtain ⟨text, hcs, htext, -⟩ := (readInteger_eq_some_iff _ _ _).mp h
    exact ⟨text, hcs, htext⟩
  complete := by
    intro text rest n htext hrest
    exact (readInteger_eq_some_iff _ _ _).mpr ⟨text, rfl, htext, hrest.noDigit⟩
  refuses := by
    intro rest h
    rcases h with ⟨behind, rfl⟩ | ⟨behind, rfl⟩
    · rfl
    · rfl

theorem reads_float : Reads readFloat FloatText where
  sound := exists_floatText_of_read
  complete := by
    intro text rest x htext hrest
    exact readFloat_append htext ⟨hrest.noDigit, hrest.readFraction_eq_none⟩
  refuses := by
    intro rest h
    rcases h with ⟨behind, rfl⟩ | ⟨behind, rfl⟩
    · rfl
    · rfl

theorem Reads.sideText_of_readOptional (h : Reads read number) {side : Option α}
    (hread : readOptional read cs = (side, rest)) :
    ∃ text, cs = text ++ rest ∧ SideText number text side := by
  unfold readOptional at hread
  split at hread
  · next x rest' hx =>
    cases hread
    obtain ⟨text, hcs, htext⟩ := h.sound hx
    exact ⟨text, hcs, .given htext⟩
  · cases hread
    exact ⟨[], rfl, .absent⟩

theorem Reads.readOptional_append (h : Reads read number) {text : List Char} {side : Option α}
    (htext : SideText number text side) (hrest : EndsSide rest) :
    readOptional read (text ++ rest) = (side, rest) := by
  cases htext with
  | absent =>
    have hnone := h.refuses hrest
    simp [readOptional, hnone]
  | given isNumber =>
    have hsome := h.complete isNumber hrest
    simp [readOptional, hsome]

theorem Reads.boundsText_of_readBounds (h : Reads read number) {b : Bounds α}
    (hread : readBounds read cs = some (b, rest)) :
    ∃ text, cs = text ++ rest ∧ BoundsText number text b := by
  unfold readBounds at hread
  split at hread
  · next body =>
    split at hread
    · next min behind hmin =>
      split at hread
      · next max after hmax =>
        cases hread
        obtain ⟨low, hbody, hlow⟩ := h.sideText_of_readOptional hmin
        obtain ⟨high, hbehind, hhigh⟩ := h.sideText_of_readOptional hmax
        refine ⟨'(' :: (low ++ '.' :: '.' :: (high ++ [')'])), ?_, .range hlow hhigh⟩
        rw [hbody, hbehind]
        simp
      · cases hread
    · cases hread
  · cases hread
    exact ⟨[], rfl, .free⟩

theorem Reads.readBounds_append (h : Reads read number) {text : List Char} {b : Bounds α}
    (htext : BoundsText number text b) (tail : List Char) :
    readBounds read (text ++ '>' :: tail) = some (b, '>' :: tail) := by
  cases htext with
  | free => rfl
  | @range low high min max isLow isHigh =>
    have hlow := h.readOptional_append isLow (.inl ⟨high ++ ')' :: '>' :: tail, rfl⟩)
    have hhigh := h.readOptional_append isHigh (.inr ⟨'>' :: tail, rfl⟩)
    simp [readBounds, hlow, hhigh]

end Readers

/-- Bounds do not begin with a letter, so the keyword in front of them is found. -/
theorem BoundsText.splits_keyword {α : Type} {number : List Char → α → Prop}
    {keyword text : List Char} {b : Bounds α} (h : BoundsText number text b)
    (hkeyword : IsRun Char.isLower keyword) (tail : List Char) :
    (keyword ++ (text ++ '>' :: tail)).takeWhile Char.isLower = keyword ∧
      (keyword ++ (text ++ '>' :: tail)).dropWhile Char.isLower = text ++ '>' :: tail := by
  apply hkeyword.split_append
  intro c hc
  cases h with
  | free =>
    cases hc
    rfl
  | range =>
    cases hc
    rfl

theorem readKind_append {text : List Char} {k : Kind} (h : KindText text k) (tail : List Char) :
    readKind (text ++ '>' :: tail) = some (k, '>' :: tail) := by
  cases h with
  | word => rfl
  | string => rfl
  | greedy => rfl
  | bool => rfl
  | resource => rfl
  | @integer text b isBounds =>
    have hkeyword : IsRun Char.isLower "integer".toList := isRun_iff.mp (by decide)
    obtain ⟨htake, hdrop⟩ := isBounds.splits_keyword hkeyword tail
    have hbounds := reads_integer.readBounds_append isBounds tail
    rw [List.append_assoc]
    simp only [readKind, htake, hdrop, String.ofList_toList]
    rw [hbounds]
    rfl
  | @float text b isBounds =>
    have hkeyword : IsRun Char.isLower "float".toList := isRun_iff.mp (by decide)
    obtain ⟨htake, hdrop⟩ := isBounds.splits_keyword hkeyword tail
    have hbounds := reads_float.readBounds_append isBounds tail
    rw [List.append_assoc]
    simp only [readKind, htake, hdrop, String.ofList_toList]
    rw [hbounds]
    rfl

theorem exists_kindText_of_readKind {cs rest : List Char} {k : Kind}
    (h : readKind cs = some (k, rest)) : ∃ text, cs = text ++ rest ∧ KindText text k := by
  have hsplit : ∀ {keyword : String}, String.ofList (cs.takeWhile Char.isLower) = keyword →
      cs = keyword.toList ++ cs.dropWhile Char.isLower := by
    intro keyword hkeyword
    rw [← hkeyword, String.toList_ofList, List.takeWhile_append_dropWhile]
  unfold readKind at h
  dsimp only at h
  split at h
  case h_1 hkeyword =>
    cases h
    exact ⟨_, hsplit hkeyword, .word⟩
  case h_2 hkeyword =>
    cases h
    exact ⟨_, hsplit hkeyword, .string⟩
  case h_3 hkeyword =>
    cases h
    exact ⟨_, hsplit hkeyword, .greedy⟩
  case h_4 hkeyword =>
    cases h
    exact ⟨_, hsplit hkeyword, .bool⟩
  case h_5 hkeyword =>
    cases h
    exact ⟨_, hsplit hkeyword, .resource⟩
  case h_6 hkeyword =>
    obtain ⟨r, hr, heq⟩ := Option.map_eq_some_iff.mp h
    cases heq
    obtain ⟨text, htext, hbounds⟩ := reads_integer.boundsText_of_readBounds hr
    refine ⟨"integer".toList ++ text, ?_, .integer hbounds⟩
    rw [List.append_assoc, ← htext]
    exact hsplit hkeyword
  case h_7 hkeyword =>
    obtain ⟨r, hr, heq⟩ := Option.map_eq_some_iff.mp h
    cases heq
    obtain ⟨text, htext, hbounds⟩ := reads_float.boundsText_of_readBounds hr
    refine ⟨"float".toList ++ text, ?_, .float hbounds⟩
    rw [List.append_assoc, ← htext]
    exact hsplit hkeyword
  case h_8 => cases h

theorem literalText_iff {text : List Char} : LiteralText text ↔ IsRun isLiteralChar text := by
  rw [← isRun_iff]
  simp [LiteralText, isLiteralChar, or_assoc]

theorem nameText_iff {text : List Char} : NameText text ↔ IsRun isNameChar text := by
  rw [← isRun_iff]
  simp [NameText, isNameChar]

theorem Element.parse?_eq_some_iff (word : List Char) (e : Element) :
    Element.parse? word = some e ↔ ElementText word e := by
  constructor
  · intro h
    unfold Element.parse? at h
    split at h
    · next body =>
      dsimp only at h
      split at h
      · next behind hbehind =>
        split at h
        · next kind hkind =>
          split_ifs at h with hname
          cases h
          obtain ⟨text, rfl, htext⟩ := exists_kindText_of_readKind hkind
          have hbody : body = body.takeWhile isNameChar ++ ':' :: (text ++ ['>']) := by
            rw [← hbehind, List.takeWhile_append_dropWhile]
          obtain ⟨name, rest, -, hrun, -, htake, -⟩ := exists_isRun hname
          rw [htake] at hbody ⊢
          rw [hbody]
          exact .argument (nameText_iff.mpr hrun) htext
        · cases h
      · cases h
    · split_ifs at h with hchars
      cases h
      exact .literal (literalText_iff.mpr (isRun_iff.mp hchars))
  · intro h
    cases h with
    | literal isLiteral =>
      have hrun := literalText_iff.mp isLiteral
      have hchars := isRun_iff.mpr hrun
      unfold Element.parse?
      split
      · next body =>
        have hopen := hrun.all '<' List.mem_cons_self
        cases hopen
      · rw [if_pos hchars]
    | @argument name text kind isName isKind =>
      have hcolon : ∀ c ∈ (':' :: (text ++ ['>'])).head?, isNameChar c = false := by
        intro c hc
        cases hc
        rfl
      have hrun := nameText_iff.mp isName
      obtain ⟨htake, hdrop⟩ := hrun.split_append hcolon
      have hkind := readKind_append isKind []
      have hne := hrun.isEmpty_eq_false
      simp [Element.parse?, htake, hdrop, hkind, hne]

/-! No element has a space. -/

theorem BoundsText.space_not_mem {α : Type} {number : List Char → α → Prop}
    (hnumber : ∀ {text x}, number text x → ' ' ∉ text) {text : List Char} {b : Bounds α}
    (h : BoundsText number text b) : ' ' ∉ text := by
  have hside : ∀ {text side}, SideText number text side → ' ' ∉ text := by
    intro text side htext
    cases htext with
    | absent => simp
    | given isNumber => exact hnumber isNumber
  cases h with
  | free => simp
  | range isLow isHigh => simp [hside isLow, hside isHigh]

theorem KindText.space_not_mem {text : List Char} {k : Kind} (h : KindText text k) :
    ' ' ∉ text := by
  cases h with
  | integer isBounds => simp [isBounds.space_not_mem IntegerText.space_not_mem]
  | float isBounds => simp [isBounds.space_not_mem FloatText.space_not_mem]
  | _ => decide

theorem ElementText.space_not_mem {word : List Char} {e : Element} (h : ElementText word e) :
    ' ' ∉ word := by
  cases h with
  | literal isLiteral => exact (literalText_iff.mp isLiteral).not_mem (by decide)
  | argument isName isKind =>
    have hname := (nameText_iff.mp isName).not_mem (c := ' ') (by decide)
    simp [hname, isKind.space_not_mem]

theorem splitOn_of_elementTexts {words : List (List Char)} {es : List Element}
    (h : List.Forall₂ ElementText words es) (hne : es ≠ []) :
    ([' '].intercalate words).splitOn ' ' = words := by
  have hspace : ∀ word ∈ words, ' ' ∉ word := by
    intro word hword
    obtain ⟨e, -, he⟩ := exists_rel_of_mem_left h hword
    exact he.space_not_mem
  have hwords : words ≠ [] := by
    rintro rfl
    cases h
    exact hne rfl
  exact List.splitOn_intercalate ' ' hspace hwords

theorem greedyLast_iff {es : List Element} :
    (∀ e ∈ es, e.isGreedy = false) ↔ ∀ name, .argument name .greedy ∉ es := by
  constructor
  · intro h name hmem
    cases h _ hmem
  · intro h e he
    by_contra hgreedy
    unfold Element.isGreedy at hgreedy
    split at hgreedy
    · exact h _ he
    · exact hgreedy rfl

/-- The elements that a line is read as are those of which it is the text. -/
theorem Usage.parse_eq_ok_iff (line : String) (u : Usage) :
    Usage.parse line = .ok u ↔ UsageText line u.elements := by
  constructor
  · intro h
    have hwords := Usage.words_denote_of_parse h
    have htexts := hwords.imp fun word e => (Element.parse?_eq_some_iff word e).mp
    exact ⟨⟨_, htexts, (List.intercalate_splitOn ' ').symm⟩, ⟨_, _, rfl⟩,
      greedyLast_iff.mp (Usage.not_isGreedy_of_mem_dropLast h)⟩
  · intro h
    obtain ⟨words, htexts, hline⟩ := h.words
    have hsplit := splitOn_of_elementTexts htexts (List.cons_ne_nil _ _)
    have hparse : words.mapM Element.parse? = some u.elements := by
      rw [mapM_eq_some_iff_forall₂]
      exact htexts.imp fun word e => (Element.parse?_eq_some_iff word e).mpr
    have hgreedy := (any_isGreedy_eq_false_iff _ _).mpr (greedyLast_iff.mpr h.arranged.greedyLast)
    unfold Usage.parse
    rw [hline, hsplit, hparse, Usage.elements]
    simp [hgreedy]

/-- The bounds of a number kind are finite. -/
def Kind.HasFiniteBounds : Kind → Prop
  | .float b => (∀ x ∈ b.min, x.isFinite = true) ∧ ∀ x ∈ b.max, x.isFinite = true
  | _ => True

/-- A literal and a name have the characters that they may have, and bounds are finite. -/
def Element.WellFormed : Element → Prop
  | .literal text => LiteralText text.toList
  | .argument name kind => NameText name.toList ∧ kind.HasFiniteBounds

/-- Well-formed elements in an order that a usage has. -/
structure WellFormed (es : List Element) : Prop where
  elements : ∀ e ∈ es, e.WellFormed
  arranged : Arranged es

/-- The written forms of elements, with one space between neighbours. -/
def written (es : List Element) : String := String.ofList ([' '].intercalate (es.map Element.chars))

theorem boundsText_chars {α : Type} {number : List Char → α → Prop} {write : α → List Char}
    {b : Bounds α} (hmin : ∀ x ∈ b.min, number (write x) x)
    (hmax : ∀ x ∈ b.max, number (write x) x) : BoundsText number (b.chars write) b := by
  have hside : ∀ {side : Option α}, (∀ x ∈ side, number (write x) x) →
      SideText number ((side.map write).getD []) side := by
    intro side hnumber
    cases side with
    | none => exact .absent
    | some x => exact .given (hnumber x rfl)
  obtain ⟨min, max⟩ := b
  unfold Bounds.chars
  dsimp only
  split_ifs with hfree
  · obtain ⟨hnone, hnone'⟩ := (Bool.and_eq_true _ _).mp hfree
    rw [Option.isNone_iff_eq_none.mp hnone, Option.isNone_iff_eq_none.mp hnone']
    exact .free
  · exact .range (hside hmin) (hside hmax)

theorem Kind.HasFiniteBounds.kindText {k : Kind} (h : k.HasFiniteBounds) : KindText k.chars k := by
  cases k with
  | integer b =>
    exact .integer (boundsText_chars (fun n _ => integerText_intChars n)
      fun n _ => integerText_intChars n)
  | float b =>
    obtain ⟨hmin, hmax⟩ := h
    exact .float (boundsText_chars (fun x hx => floatText_chars (hmin x hx))
      fun x hx => floatText_chars (hmax x hx))
  | word => exact .word
  | string => exact .string
  | greedy => exact .greedy
  | bool => exact .bool
  | resource => exact .resource

theorem Element.WellFormed.elementText {e : Element} (h : e.WellFormed) :
    ElementText e.chars e := by
  cases e with
  | literal text =>
    have htext := ElementText.literal h
    rwa [String.ofList_toList] at htext
  | argument name kind =>
    obtain ⟨hname, hkind⟩ := h
    have htext := ElementText.argument hname hkind.kindText
    rwa [String.ofList_toList] at htext

theorem usageText_written {es : List Element} (h : WellFormed es) : UsageText (written es) es := by
  refine ⟨⟨es.map Element.chars, ?_, String.toList_ofList⟩, h.arranged⟩
  rw [List.forall₂_map_left_iff, List.forall₂_same]
  intro e he
  exact (h.elements e he).elementText

/-- Well-formed elements are read back from their written form. -/
theorem parse_written {es : List Element} (h : WellFormed es) :
    ∃ u, Usage.parse (written es) = .ok u ∧ u.elements = es := by
  obtain ⟨command, parameters, rfl⟩ := h.arranged.literalFirst
  exact ⟨⟨command, parameters⟩, (Usage.parse_eq_ok_iff _ _).mpr (usageText_written h), rfl⟩

/-- A line is read if and only if it follows the grammar, and as the elements of which it is the
text; and well-formed elements are read back from their written form. -/
theorem Usage.parses_grammar_and_inverts_written :
    (∀ line u, Usage.parse line = .ok u ↔ UsageText line u.elements) ∧
      (∀ line, (∃ u, Usage.parse line = .ok u) ↔ ∃ es, UsageText line es) ∧
        ∀ es, WellFormed es → ∃ u, Usage.parse (written es) = .ok u ∧ u.elements = es := by
  refine ⟨Usage.parse_eq_ok_iff, ?_, fun es h => parse_written h⟩
  intro line
  constructor
  · intro h
    obtain ⟨u, hu⟩ := h
    exact ⟨u.elements, (Usage.parse_eq_ok_iff line u).mp hu⟩
  · intro h
    obtain ⟨es, hes⟩ := h
    obtain ⟨command, parameters, rfl⟩ := hes.arranged.literalFirst
    exact ⟨⟨command, parameters⟩, (Usage.parse_eq_ok_iff line _).mpr hes⟩

theorem Usage.parses_grammar_and_inverts_written_scale :
    ∃ u, Usage.parse "scale <x:float(-0..0.1)> <n:integer(..7)> <rest:greedy>" = .ok u ∧
      u.elements = [.literal "scale",
        .argument "x" (.float ⟨some (ofDecimalDigits true ['0'] []),
          some (ofDecimalDigits false ['0'] ['1'])⟩),
        .argument "n" (.integer ⟨none, some 7⟩), .argument "rest" .greedy] := by
  generalize hes : [Element.literal "scale",
    .argument "x" (.float ⟨some (ofDecimalDigits true ['0'] []),
      some (ofDecimalDigits false ['0'] ['1'])⟩),
    .argument "n" (.integer ⟨none, some 7⟩), .argument "rest" .greedy] = es
  have hwritten : written es = "scale <x:float(-0..0.1)> <n:integer(..7)> <rest:greedy>" := by
    subst hes
    decide +kernel
  have hwellFormed : WellFormed es := by
    subst hes
    refine ⟨?_, ⟨_, _, rfl⟩, by simp⟩
    have hscale : (Element.literal "scale").WellFormed :=
      literalText_iff.mpr (isRun_iff.mp (by decide))
    have hx : (Element.argument "x" (.float ⟨some (ofDecimalDigits true ['0'] []),
        some (ofDecimalDigits false ['0'] ['1'])⟩)).WellFormed := by
      refine ⟨nameText_iff.mpr (isRun_iff.mp (by decide)), ?_, ?_⟩
      · intro x hx
        cases hx
        decide +kernel
      · intro x hx
        cases hx
        decide +kernel
    have hn : (Element.argument "n" (.integer ⟨none, some 7⟩)).WellFormed :=
      ⟨nameText_iff.mpr (isRun_iff.mp (by decide)), trivial⟩
    have hrest : (Element.argument "rest" .greedy).WellFormed :=
      ⟨nameText_iff.mpr (isRun_iff.mp (by decide)), trivial⟩
    simp [hscale, hx, hn, hrest]
  rw [← hwritten]
  exact Usage.parses_grammar_and_inverts_written.2.2 es hwellFormed

end CommandScript.Grammar
