import Mathlib.Tactic.SplitIfs
import CommandScript.Grammar.Literal
import CommandScript.Proofs.Numeric.Positional

/-! The texts of integers and of decimal numbers, and what the readers of numbers take at the start
of a text. -/
namespace CommandScript.Grammar
open Numeric Text

def signChars (negative : Bool) : List Char := if negative then ['-'] else []

/-- The texts of a 64-bit integer: an optional minus sign, and digits. -/
inductive IntegerText : List Char → Int64 → Prop
  | number {negative : Bool} {digits : List Char} {n : Int64} (isDigits : IsDigits digits)
      (value : n.toInt = signed negative (ofDigits digits)) :
      IntegerText (signChars negative ++ digits) n

/-- The texts of a decimal number: an optional minus sign, and digits, which may have a point and
digits behind them, or a point and digits alone. -/
inductive FloatText : List Char → Binary64 → Prop
  | whole {negative : Bool} {digits : List Char} (isDigits : IsDigits digits) :
      FloatText (signChars negative ++ digits) (ofDecimalDigits negative digits [])
  | decimal {negative : Bool} {digits fraction : List Char} (isDigits : IsDigits digits)
      (isFraction : IsDigits fraction) :
      FloatText (signChars negative ++ (digits ++ '.' :: fraction))
        (ofDecimalDigits negative digits fraction)
  | fraction {negative : Bool} {fraction : List Char} (isFraction : IsDigits fraction) :
      FloatText (signChars negative ++ '.' :: fraction) (ofDecimalDigits negative [] fraction)

theorem space_not_mem_signChars (negative : Bool) : ' ' ∉ signChars negative := by
  cases negative with
  | true => decide
  | false => decide

theorem IntegerText.space_not_mem {text : List Char} {n : Int64} (h : IntegerText text n) :
    ' ' ∉ text := by
  cases h with
  | number isDigits =>
    have hdigits := isDigits.not_mem (c := ' ') rfl
    simp [space_not_mem_signChars, hdigits]

theorem FloatText.space_not_mem {text : List Char} {x : Binary64} (h : FloatText text x) :
    ' ' ∉ text := by
  cases h with
  | whole isDigits =>
    have hdigits := isDigits.not_mem (c := ' ') rfl
    simp [space_not_mem_signChars, hdigits]
  | decimal isDigits isFraction =>
    have hdigits := isDigits.not_mem (c := ' ') rfl
    have hfraction := isFraction.not_mem (c := ' ') rfl
    simp [space_not_mem_signChars, hdigits, hfraction]
  | fraction isFraction =>
    have hfraction := isFraction.not_mem (c := ' ') rfl
    simp [space_not_mem_signChars, hfraction]

theorem splitSign_eq {cs body : List Char} {negative : Bool} (h : splitSign cs = (negative, body)) :
    cs = signChars negative ++ body := by
  unfold splitSign at h
  split at h
  · cases h
    rfl
  · cases h
    rfl

theorem splitSign_append (negative : Bool) {body : List Char} (h : ∀ c ∈ body.head?, c ≠ '-') :
    splitSign (signChars negative ++ body) = (negative, body) := by
  cases negative with
  | true => rfl
  | false =>
    change splitSign body = (false, body)
    unfold splitSign
    split
    · exact absurd rfl (h '-' rfl)
    · rfl

theorem int64?_eq_some_iff (i : Int) (n : Int64) : int64? i = some n ↔ n.toInt = i := by
  unfold int64?
  constructor
  · intro h
    split_ifs at h
    cases h
    exact Int64.toInt_ofIntLE
  · rintro rfl
    have hbounds : Int64.minValue.toInt ≤ n.toInt ∧ n.toInt ≤ Int64.maxValue.toInt :=
      ⟨Int64.le_iff_toInt_le.mp (Int64.minValue_le n),
        Int64.le_iff_toInt_le.mp (Int64.le_maxValue n)⟩
    rw [dif_pos hbounds]
    exact congrArg some (Int64.toInt_inj.mp Int64.toInt_ofIntLE)

/-- A text does not go on with a digit. -/
def NoDigit (rest : List Char) : Prop := ∀ c ∈ rest.head?, c.isDigit = false

theorem readInteger_eq_some_iff (cs rest : List Char) (n : Int64) :
    readInteger cs = some (n, rest) ↔
      ∃ text, cs = text ++ rest ∧ IntegerText text n ∧ NoDigit rest := by
  unfold readInteger
  constructor
  · intro h
    cases hsign : splitSign cs with
    | mk negative body =>
      rw [hsign] at h
      dsimp only at h
      split_ifs at h with hempty
      obtain ⟨digits, rest', hbody, hdigits, hrest, htake, hdrop⟩ := exists_isRun hempty
      obtain ⟨n', hn', heq⟩ := Option.map_eq_some_iff.mp h
      rw [hdrop] at heq
      cases heq
      rw [htake] at hn'
      refine ⟨signChars negative ++ digits, ?_, .number hdigits ((int64?_eq_some_iff _ _).mp hn'),
        hrest⟩
      rw [splitSign_eq hsign, hbody, List.append_assoc]
  · rintro ⟨text, rfl, htext, hrest⟩
    cases htext with
    | @number negative digits n hdigits hvalue =>
      have hsign := splitSign_append negative (hdigits.head_ne (c := '-') rfl rest)
      obtain ⟨htake, hdrop⟩ := hdigits.split_append hrest
      have hne := hdigits.isEmpty_eq_false
      rw [List.append_assoc]
      simp [hsign, htake, hdrop, hne, (int64?_eq_some_iff _ _).mpr hvalue]

theorem readFraction_eq_some_iff (cs digits rest : List Char) :
    readFraction cs = some (digits, rest) ↔
      cs = '.' :: (digits ++ rest) ∧ IsDigits digits ∧ NoDigit rest := by
  constructor
  · intro h
    unfold readFraction at h
    split at h
    · next body =>
      dsimp only at h
      split_ifs at h with hempty
      cases h
      obtain ⟨digits, rest, hbody, hdigits, hrest, htake, hdrop⟩ := exists_isRun hempty
      rw [htake, hdrop]
      exact ⟨congrArg ('.' :: ·) hbody, hdigits, hrest⟩
    · cases h
  · rintro ⟨rfl, hdigits, hrest⟩
    obtain ⟨htake, hdrop⟩ := hdigits.split_append hrest
    have hne := hdigits.isEmpty_eq_false
    simp [readFraction, htake, hdrop, hne]

/-- A text goes on neither with a digit nor with a point and a digit. -/
def EndsNumber (rest : List Char) : Prop := NoDigit rest ∧ readFraction rest = none

theorem exists_floatText_of_read {cs rest : List Char} {x : Binary64}
    (h : readFloat cs = some (x, rest)) : ∃ text, cs = text ++ rest ∧ FloatText text x := by
  unfold readFloat at h
  cases hsign : splitSign cs with
  | mk negative body =>
    rw [hsign] at h
    dsimp only at h
    have hcs := splitSign_eq hsign
    split at h
    · next fraction rest' hfraction =>
      cases h
      obtain ⟨hdrop, hdigits, -⟩ := (readFraction_eq_some_iff _ _ _).mp hfraction
      by_cases hempty : (body.takeWhile Char.isDigit).isEmpty
      · have hnil := List.isEmpty_iff.mp hempty
        obtain ⟨hbody, -, -⟩ := (splits_iff _ _ _ _).mp ⟨hnil, hdrop⟩
        refine ⟨signChars negative ++ '.' :: fraction, ?_, ?_⟩
        · rw [hcs, hbody]
          simp
        · rw [hnil]
          exact .fraction hdigits
      · obtain ⟨whole, rest'', hbody, hwhole, -, htake, hdrop'⟩ := exists_isRun hempty
        rw [hdrop] at hdrop'
        refine ⟨signChars negative ++ (whole ++ '.' :: fraction), ?_, ?_⟩
        · rw [hcs, hbody, ← hdrop']
          simp
        · rw [htake]
          exact .decimal hwhole hdigits
    · split_ifs at h with hempty
      cases h
      obtain ⟨whole, rest, hbody, hwhole, -, htake, hdrop⟩ := exists_isRun hempty
      rw [htake, hdrop]
      refine ⟨signChars negative ++ whole, ?_, .whole hwhole⟩
      rw [hcs, hbody, List.append_assoc]

theorem readFloat_append {text rest : List Char} {x : Binary64} (h : FloatText text x)
    (hrest : EndsNumber rest) : readFloat (text ++ rest) = some (x, rest) := by
  obtain ⟨hdigit, hpoint⟩ := hrest
  cases h with
  | @whole negative digits isDigits =>
    have hsign := splitSign_append negative (isDigits.head_ne (c := '-') rfl rest)
    obtain ⟨htake, hdrop⟩ := isDigits.split_append hdigit
    have hne := isDigits.isEmpty_eq_false
    rw [List.append_assoc]
    simp [readFloat, hsign, htake, hdrop, hpoint, hne]
  | @decimal negative digits fraction isDigits isFraction =>
    have hsign := splitSign_append negative
      (isDigits.head_ne (c := '-') rfl ('.' :: (fraction ++ rest)))
    have hpoint : ∀ c ∈ ('.' :: (fraction ++ rest)).head?, c.isDigit = false := by
      intro c hc
      cases hc
      rfl
    obtain ⟨htake, hdrop⟩ := isDigits.split_append hpoint
    have hread := (readFraction_eq_some_iff _ fraction rest).mpr ⟨rfl, isFraction, hdigit⟩
    have happend : signChars negative ++ (digits ++ '.' :: fraction) ++ rest =
        signChars negative ++ (digits ++ '.' :: (fraction ++ rest)) := by simp
    rw [happend]
    simp [readFloat, hsign, htake, hdrop, hread]
  | @fraction negative fraction isFraction =>
    have hpoint : ∀ c ∈ ('.' :: (fraction ++ rest)).head?, c = '.' := by
      intro c hc
      cases hc
      rfl
    have hsign : splitSign (signChars negative ++ '.' :: (fraction ++ rest)) =
        (negative, '.' :: (fraction ++ rest)) := by
      apply splitSign_append
      intro c hc
      rw [hpoint c hc]
      decide
    obtain ⟨htake, hdrop⟩ := (splits_iff Char.isDigit ('.' :: (fraction ++ rest)) [] _).mpr
      ⟨rfl, nofun, fun c hc => hpoint c hc ▸ rfl⟩
    have hread := (readFraction_eq_some_iff _ fraction rest).mpr ⟨rfl, isFraction, hdigit⟩
    have happend : signChars negative ++ '.' :: fraction ++ rest =
        signChars negative ++ '.' :: (fraction ++ rest) := by simp
    rw [happend]
    simp [readFloat, hsign, htake, hdrop, hread]

theorem readAll_eq_some_iff {α : Type} {read : List Char → Option (α × List Char)}
    {cs : List Char} {x : α} : readAll read cs = some x ↔ read cs = some (x, []) := by
  unfold readAll
  split
  · next hread => simp [hread]
  · next hread =>
    constructor
    · intro h
      cases h
    · intro h
      exact absurd h (hread x)

theorem readAll_readInteger_eq_some_iff (word : List Char) (n : Int64) :
    readAll readInteger word = some n ↔ IntegerText word n := by
  rw [readAll_eq_some_iff, readInteger_eq_some_iff]
  constructor
  · rintro ⟨text, hword, htext, -⟩
    rwa [hword, List.append_nil]
  · intro htext
    exact ⟨word, (List.append_nil word).symm, htext, nofun⟩

theorem readAll_readFloat_eq_some_iff (word : List Char) (x : Binary64) :
    readAll readFloat word = some x ↔ FloatText word x := by
  rw [readAll_eq_some_iff]
  constructor
  · intro h
    obtain ⟨text, hword, htext⟩ := exists_floatText_of_read h
    rwa [hword, List.append_nil]
  · intro htext
    have hends : EndsNumber [] := ⟨nofun, rfl⟩
    have hread := readFloat_append htext hends
    rwa [List.append_nil] at hread

theorem intChars_eq (i : Int) :
    intChars i = signChars (decide (i < 0)) ++ natChars i.natAbs := by
  unfold intChars signChars
  by_cases hnegative : i < 0
  · simp [hnegative]
  · simp [hnegative]

theorem isDigits_natChars (n : Nat) : IsDigits (natChars n) :=
  ⟨natChars_ne_nil n, fun _ hc => isDigit_of_mem_natChars hc⟩

theorem signed_natAbs (i : Int) : signed (decide (i < 0)) i.natAbs = i := by
  unfold signed
  by_cases hnegative : i < 0
  · simp only [hnegative, decide_true, if_true]
    omega
  · simp only [hnegative, decide_false, Bool.false_eq_true, if_false]
    omega

/-- The written form of an integer is one of its texts. -/
theorem integerText_intChars (n : Int64) : IntegerText (intChars n.toInt) n := by
  have hvalue : n.toInt = signed (decide (n.toInt < 0)) (ofDigits (natChars n.toInt.natAbs)) := by
    rw [ofDigits_natChars, signed_natAbs]
  rw [intChars_eq]
  exact .number (isDigits_natChars _) hvalue

/-- The plain form of a finite number is one of its texts. -/
theorem floatText_chars {x : Binary64} (h : x.isFinite = true) :
    FloatText (x.chars .plain) x := by
  obtain ⟨whole, fraction, hchars, hwhole, hfraction, hvalue⟩ := Binary.chars_plain h
  rw [hchars]
  have hsign : (if x.negative then ['-'] else []) = signChars x.negative := rfl
  have hofDigits : ofDecimalDigits x.negative whole fraction = x := hvalue
  rw [hsign]
  by_cases hempty : fraction = []
  · subst hempty
    rw [pointChars_nil]
    have htext : FloatText (signChars x.negative ++ whole)
        (ofDecimalDigits x.negative whole []) := .whole hwhole
    rwa [hofDigits] at htext
  · rw [pointChars_of_ne_nil _ hempty]
    have htext : FloatText (signChars x.negative ++ (whole ++ '.' :: fraction))
        (ofDecimalDigits x.negative whole fraction) := .decimal hwhole ⟨hempty, hfraction⟩
    rwa [hofDigits] at htext

end CommandScript.Grammar
