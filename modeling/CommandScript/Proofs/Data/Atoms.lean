import CommandScript.Data.Snbt
import CommandScript.Proofs.Grammar.NumberText

/-! Numbers and plain words in SNBT. Their texts are runs of a few characters, and the value can be
read off the text: the letter behind a number says its type. -/
namespace CommandScript
open Numeric Text Grammar

/-- The integer that a text of an integer denotes. -/
def integerOf (cs : List Char) : Int := signed (splitSign cs).1 (ofDigits (splitSign cs).2)

/-- The floating-point number nearest to the decimal number that a text denotes. -/
def binaryOf (f : Format) (cs : List Char) : Binary f :=
  let (negative, body) := splitSign cs
  let fraction := (body.dropWhile Char.isDigit).tail
  .ofRatio f negative (ofDigits (body.takeWhile Char.isDigit ++ fraction))
    (Nat.pow 10 fraction.length)

theorem integerOf_intChars (i : Int) : integerOf (intChars i) = i := by
  have hsign : splitSign (intChars i) = (decide (i < 0), natChars i.natAbs) := by
    have hhead := (isDigits_natChars i.natAbs).head_ne (c := '-') rfl []
    rw [List.append_nil] at hhead
    rw [intChars_eq, splitSign_append _ hhead]
  rw [integerOf, hsign, ofDigits_natChars, signed_natAbs]

theorem noDigit_point (fraction : List Char) :
    ∀ c ∈ (if fraction = [] then [] else '.' :: fraction).head?, c.isDigit = false := by
  intro c hc
  by_cases hempty : fraction = []
  · rw [if_pos hempty] at hc
    cases hc
  · rw [if_neg hempty] at hc
    cases hc
    rfl

theorem binaryOf_chars {f : Format} {x : Binary f} (h : x.isFinite = true) :
    binaryOf f (x.chars .plain) = x := by
  obtain ⟨whole, fraction, hchars, hwhole, -, hvalue⟩ := Binary.chars_plain h
  have hsign : splitSign (x.chars .plain) = (x.negative, pointChars whole fraction) := by
    rw [hchars]
    exact splitSign_append x.negative (hwhole.head_ne (c := '-') rfl _)
  obtain ⟨htake, hdrop⟩ := hwhole.split_append (noDigit_point fraction)
  have htail : (if fraction = [] then [] else '.' :: fraction).tail = fraction := by
    by_cases hempty : fraction = []
    · simp [hempty]
    · simp [hempty]
  have hbinary : binaryOf f (x.chars .plain) =
      .ofRatio f x.negative (ofDigits (whole ++ fraction)) (10 ^ fraction.length) := by
    rw [binaryOf, hsign]
    dsimp only [pointChars]
    rw [htake, hdrop, htail]
    rfl
  rw [hbinary, hvalue]

theorem isAlpha_eq_false_of_isDigit {c : Char} (h : c.isDigit = true) : c.isAlpha = false := by
  apply Bool.eq_false_iff.mpr
  intro halpha
  have hcode : 48 ≤ c.toNat ∧ c.toNat ≤ 57 := (isDigit_iff c).mp h
  have hcodes : (65 ≤ c.toNat ∧ c.toNat ≤ 90) ∨ (97 ≤ c.toNat ∧ c.toNat ≤ 122) :=
    (isAlpha_iff c).mp halpha
  omega

/-- The characters of numbers and plain words. -/
def isAtomChar (c : Char) : Bool := c.isAlphanum || c == '_' || c == '-' || c == '.'

theorem isAtomChar_of_isDigit {c : Char} (h : c.isDigit = true) : isAtomChar c = true := by
  have halphanum : c.isAlphanum = (c.isAlpha || c.isDigit) := rfl
  simp [isAtomChar, halphanum, h]

theorem isAtomChar_of_isWordChar {c : Char} (h : (c.isAlphanum || c == '_') = true) :
    isAtomChar c = true := by
  rw [isAtomChar, h]
  rfl

theorem isRun_of_isPlainWord {cs : List Char} (h : isPlainWord cs = true) :
    IsRun isAtomChar cs := by
  cases cs with
  | nil => cases h
  | cons c cs =>
    obtain ⟨hfirst, hrest⟩ := Bool.and_eq_true_iff.mp h
    refine ⟨List.cons_ne_nil c cs, ?_⟩
    intro d hd
    apply isAtomChar_of_isWordChar
    rcases List.mem_cons.mp hd with rfl | hd
    · have halphanum : d.isAlphanum = (d.isAlpha || d.isDigit) := rfl
      rcases Bool.or_eq_true_iff.mp hfirst with halpha | hunderscore
      · simp [halphanum, halpha]
      · simp [hunderscore]
    · exact List.all_eq_true.mp hrest d hd

/-- An optional minus sign, a digit, and digits and points. -/
inductive IsNumeral : List Char → Prop
  | number {negative : Bool} {digit : Char} {rest : List Char} (isDigit : digit.isDigit = true)
      (digitsAndPoints : ∀ c ∈ rest, c.isDigit = true ∨ c = '.') :
      IsNumeral (signChars negative ++ digit :: rest)

theorem IsNumeral.of_digits (negative : Bool) {digits rest : List Char} (h : IsDigits digits)
    (hrest : ∀ c ∈ rest, c.isDigit = true ∨ c = '.') :
    IsNumeral (signChars negative ++ (digits ++ rest)) := by
  obtain ⟨digit, digits, rfl⟩ := List.exists_cons_of_ne_nil h.nonempty
  refine .number (h.all digit List.mem_cons_self) ?_
  intro c hc
  rcases List.mem_append.mp hc with hc | hc
  · exact Or.inl (h.all c (List.mem_cons_of_mem digit hc))
  · exact hrest c hc

theorem isNumeral_intChars (i : Int) : IsNumeral (intChars i) := by
  rw [intChars_eq, ← List.append_nil (natChars i.natAbs)]
  exact IsNumeral.of_digits _ (isDigits_natChars _) nofun

theorem isNumeral_chars {f : Format} {x : Binary f} (h : x.isFinite = true) :
    IsNumeral (x.chars .plain) := by
  obtain ⟨whole, fraction, hchars, hwhole, hfraction, -⟩ := Binary.chars_plain h
  rw [hchars]
  refine IsNumeral.of_digits x.negative hwhole ?_
  intro c hc
  by_cases hempty : fraction = []
  · rw [if_pos hempty] at hc
    cases hc
  · rw [if_neg hempty] at hc
    rcases List.mem_cons.mp hc with rfl | hc
    · exact Or.inr rfl
    · exact Or.inl (hfraction c hc)

namespace IsNumeral

variable {cs : List Char}

theorem ne_nil (h : IsNumeral cs) : cs ≠ [] := by
  cases h with
  | number => simp

theorem forall_isAtomChar (h : IsNumeral cs) : ∀ c ∈ cs, isAtomChar c = true := by
  obtain @⟨negative, digit, rest, hdigit, hrest⟩ := h
  intro c hc
  rcases List.mem_append.mp hc with hsign | hc
  · cases negative with
    | true =>
      obtain rfl := List.mem_singleton.mp hsign
      rfl
    | false => cases hsign
  · rcases List.mem_cons.mp hc with rfl | hc
    · exact isAtomChar_of_isDigit hdigit
    · rcases hrest c hc with hc | rfl
      · exact isAtomChar_of_isDigit hc
      · rfl

/-- No word begins as a number does. -/
theorem isPlainWord_append (h : IsNumeral cs) (rest : List Char) :
    isPlainWord (cs ++ rest) = false := by
  obtain @⟨negative, digit, behind, hdigit, -⟩ := h
  cases negative with
  | true => rfl
  | false =>
    have halpha := isAlpha_eq_false_of_isDigit hdigit
    have hunderscore : digit ≠ '_' := by
      rintro rfl
      cases hdigit
    simp [signChars, isPlainWord, halpha, hunderscore]

theorem isAlpha_eq_false_of_getLast? (h : IsNumeral cs) :
    ∀ c ∈ cs.getLast?, c.isAlpha = false := by
  obtain @⟨negative, digit, rest, hdigit, hrest⟩ := h
  intro c hc
  rw [List.getLast?_append_of_ne_nil _ (List.cons_ne_nil digit rest)] at hc
  rcases List.mem_cons.mp (List.mem_of_mem_getLast? hc) with rfl | hc
  · exact isAlpha_eq_false_of_isDigit hdigit
  · rcases hrest c hc with hdigit | rfl
    · exact isAlpha_eq_false_of_isDigit hdigit
    · rfl

end IsNumeral

/-- The value whose text is a plain word, or a number with or without a letter behind it. -/
def atomOf (cs : List Char) : Value :=
  if isPlainWord cs then .string (String.ofList cs)
  else
    match cs.getLast? with
    | some 'b' => .byte (.ofInt (integerOf cs.dropLast))
    | some 's' => .short (.ofInt (integerOf cs.dropLast))
    | some 'L' => .long (.ofInt (integerOf cs.dropLast))
    | some 'f' => .float (binaryOf .single cs.dropLast)
    | some 'd' => .double (binaryOf .double cs.dropLast)
    | _ => .int (.ofInt (integerOf cs))

/-- A number with no letter behind it is an integer of 32 bits. -/
theorem atomOf_of_isNumeral {cs : List Char} (h : IsNumeral cs) :
    atomOf cs = .int (.ofInt (integerOf cs)) := by
  have hword := h.isPlainWord_append []
  have hlast := h.isAlpha_eq_false_of_getLast?
  rw [List.append_nil] at hword
  rw [atomOf, if_neg (by simp [hword])]
  split
  · next hc => cases hlast _ hc
  · next hc => cases hlast _ hc
  · next hc => cases hlast _ hc
  · next hc => cases hlast _ hc
  · next hc => cases hlast _ hc
  · rfl

namespace Value

/-- Whether a value is a number or a plain word. -/
def isAtom : Value → Bool
  | string s => isPlainWord s.toList
  | list _ | compound _ => false
  | _ => true

/-- The floats and doubles in a value are finite, at every depth. -/
inductive Finite : Value → Prop
  | byte (n : Int8) : Finite (.byte n)
  | short (n : Int16) : Finite (.short n)
  | int (n : Int32) : Finite (.int n)
  | long (n : Int64) : Finite (.long n)
  | float {x : Binary32} (isFinite : x.isFinite = true) : Finite (.float x)
  | double {x : Binary64} (isFinite : x.isFinite = true) : Finite (.double x)
  | string (s : String) : Finite (.string s)
  | list {items : List Value} (members : ∀ v ∈ items, Finite v) : Finite (.list items)
  | compound {entries : List (String × Value)} (values : ∀ e ∈ entries, Finite e.2) :
      Finite (.compound entries)

theorem snbtChars_string_of_isPlainWord {s : String} (h : isPlainWord s.toList = true) :
    (string s).snbtChars = s.toList := by
  rw [snbtChars, snbtString, if_pos h]

theorem snbtChars_string_of_not_isPlainWord {s : String} (h : ¬isPlainWord s.toList = true) :
    (string s).snbtChars = Quoted.encode s.toList := by
  rw [snbtChars, snbtString, if_neg h]

/-- The text of an atom is a run of the characters of atoms. -/
theorem Finite.isRun_of_isAtom {v : Value} (hv : v.Finite) (h : v.isAtom = true) :
    IsRun isAtomChar v.snbtChars := by
  have hnumeral : ∀ {cs : List Char}, IsNumeral cs → ∀ {c : Char}, isAtomChar c = true →
      IsRun isAtomChar (cs ++ [c]) := by
    intro cs hcs c hc
    refine ⟨by simp, ?_⟩
    intro d hd
    rcases List.mem_append.mp hd with hd | hd
    · exact hcs.forall_isAtomChar d hd
    · rwa [List.mem_singleton.mp hd]
  cases hv with
  | byte n => exact hnumeral (isNumeral_intChars _) rfl
  | short n => exact hnumeral (isNumeral_intChars _) rfl
  | int n => exact ⟨(isNumeral_intChars _).ne_nil, (isNumeral_intChars _).forall_isAtomChar⟩
  | long n => exact hnumeral (isNumeral_intChars _) rfl
  | float isFinite => exact hnumeral (isNumeral_chars isFinite) rfl
  | double isFinite => exact hnumeral (isNumeral_chars isFinite) rfl
  | string s =>
    rw [snbtChars_string_of_isPlainWord h]
    exact isRun_of_isPlainWord h
  | list _ => cases h
  | compound _ => cases h

/-- An atom can be read off its text. -/
theorem Finite.atomOf_snbtChars {v : Value} (hv : v.Finite) (h : v.isAtom = true) :
    atomOf v.snbtChars = v := by
  cases hv with
  | byte n =>
    have hword := (isNumeral_intChars n.toInt).isPlainWord_append ['b']
    simp [snbtChars, atomOf, hword, integerOf_intChars]
  | short n =>
    have hword := (isNumeral_intChars n.toInt).isPlainWord_append ['s']
    simp [snbtChars, atomOf, hword, integerOf_intChars]
  | int n =>
    have hvalue := atomOf_of_isNumeral (isNumeral_intChars n.toInt)
    rw [integerOf_intChars, Int32.ofInt_toInt] at hvalue
    exact hvalue
  | long n =>
    have hword := (isNumeral_intChars n.toInt).isPlainWord_append ['L']
    simp [snbtChars, atomOf, hword, integerOf_intChars]
  | @float x isFinite =>
    have hword := (isNumeral_chars isFinite).isPlainWord_append ['f']
    simp [snbtChars, atomOf, hword, binaryOf_chars isFinite]
  | @double x isFinite =>
    have hword := (isNumeral_chars isFinite).isPlainWord_append ['d']
    simp [snbtChars, atomOf, hword, binaryOf_chars isFinite]
  | string s =>
    have hword : isPlainWord s.toList = true := h
    rw [snbtChars_string_of_isPlainWord hword, atomOf, if_pos hword, String.ofList_toList]
  | list _ => cases h
  | compound _ => cases h

end Value
end CommandScript
