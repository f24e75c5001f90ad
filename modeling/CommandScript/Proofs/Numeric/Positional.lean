import Mathlib.Data.List.DropRight
import CommandScript.Numeric.Layout
import CommandScript.Proofs.Numeric.Nearest
import CommandScript.Proofs.Text.Runs

/-! The plain form of a finite floating-point number: digits, and perhaps a point and more digits,
which together denote a decimal number that rounds to it. -/
namespace CommandScript.Numeric

/-- Decimal digits, at least one. -/
abbrev IsDigits : List Char → Prop := Text.IsRun Char.isDigit

theorem ofDigits_append (cs cs' : List Char) :
    ofDigits (cs ++ cs') = ofDigits cs * 10 ^ cs'.length + ofDigits cs' := by
  rw [ofDigits, Nat.ofDigitChars_append, Nat.ofDigitChars_eq_ofDigitChars_zero, Nat.mul_comm]
  rfl

theorem ofDigits_zeros (n : Nat) : ofDigits (List.replicate n '0') = 0 := by
  rw [ofDigits, Nat.ofDigitChars_replicate_zero, Nat.mul_zero]

theorem ofDigits_append_zeros (cs : List Char) (n : Nat) :
    ofDigits (cs ++ List.replicate n '0') = ofDigits cs * 10 ^ n := by
  rw [ofDigits_append, ofDigits_zeros, List.length_replicate, Nat.add_zero]

theorem ofDigits_zeros_append (n : Nat) (cs : List Char) :
    ofDigits (List.replicate n '0' ++ cs) = ofDigits cs := by
  rw [ofDigits_append, ofDigits_zeros, Nat.zero_mul, Nat.zero_add]

theorem isDigit_of_mem_zeros {n : Nat} {c : Char} (h : c ∈ List.replicate n '0') :
    c.isDigit = true := by
  rw [List.eq_of_mem_replicate h]
  rfl

/-- The significant digits of a decimal number and their exponent denote the same number. -/
theorem Decimal.significant_spec {d : Decimal} (h : d.coefficient ≠ 0) :
    IsDigits d.significant.1 ∧ ∃ zeros : Nat,
      d.coefficient = ofDigits d.significant.1 * 10 ^ zeros ∧
      d.significant.2 = d.exponent + zeros := by
  have hkept : d.significant.1 = (natChars d.coefficient).rdropWhile (· == '0') := rfl
  have hexponent : d.significant.2 = d.exponent +
      ((natChars d.coefficient).length - d.significant.1.length : Nat) := rfl
  have hsplit : d.significant.1 ++ (natChars d.coefficient).rtakeWhile (· == '0') =
      natChars d.coefficient := by
    rw [hkept]
    exact List.rdropWhile_append_rtakeWhile
  generalize hzeros : (natChars d.coefficient).rtakeWhile (· == '0') = dropped at hsplit
  have hreplicate : dropped = List.replicate dropped.length '0' := by
    refine List.eq_replicate_of_mem ?_
    intro c hc
    rw [← hzeros] at hc
    have hzero := List.mem_rtakeWhile_imp (p := (· == '0')) hc
    exact eq_of_beq hzero
  have hvalue : d.coefficient = ofDigits d.significant.1 * 10 ^ dropped.length := by
    rw [← ofDigits_append_zeros, ← hreplicate, hsplit, ofDigits_natChars]
  have hlength : (natChars d.coefficient).length - d.significant.1.length = dropped.length := by
    rw [← hsplit, List.length_append]
    omega
  refine ⟨⟨?_, ?_⟩, dropped.length, hvalue, ?_⟩
  · intro hnil
    apply h
    rw [hvalue, hnil]
    exact Nat.zero_mul _
  · intro c hc
    have hmem : c ∈ natChars d.coefficient := by
      rw [← hsplit]
      exact List.mem_append_left _ hc
    exact isDigit_of_mem_natChars hmem
  · rw [hexponent, hlength]

/-- Digits in front of a point and digits behind it; without the latter there is no point. -/
def pointChars (whole fraction : List Char) : List Char :=
  whole ++ (if fraction = [] then [] else '.' :: fraction)

theorem pointChars_nil (whole : List Char) : pointChars whole [] = whole := by
  simp [pointChars]

theorem pointChars_of_ne_nil (whole : List Char) {fraction : List Char} (h : fraction ≠ []) :
    pointChars whole fraction = whole ++ '.' :: fraction := by
  simp [pointChars, h]

/-- Digits with a point in their place are digits in front of the point and behind it, with zeros
where there would be none. -/
theorem positionalChars_eq {digits : List Char} (h : IsDigits digits) (exponent : Int) :
    ∃ whole fraction, positionalChars false digits exponent = pointChars whole fraction ∧
      IsDigits whole ∧ (∀ c ∈ fraction, c.isDigit = true) ∧
      ofDigits (whole ++ fraction) = ofDigits digits * 10 ^ exponent.toNat ∧
      fraction.length = (-exponent).toNat := by
  have hlength : 0 < digits.length := List.length_pos_of_ne_nil h.nonempty
  unfold positionalChars
  dsimp only
  by_cases hwhole : 0 ≤ exponent
  · refine ⟨digits ++ List.replicate exponent.toNat '0', [], ?_, ⟨?_, ?_⟩, nofun, ?_, ?_⟩
    · rw [if_pos hwhole, pointChars_nil]
      simp
    · simp [h.nonempty]
    · intro c hc
      rcases List.mem_append.mp hc with hc | hc
      · exact h.all c hc
      · exact isDigit_of_mem_zeros hc
    · rw [List.append_nil, ofDigits_append_zeros]
    · simp
      omega
  have hnegative : exponent.toNat = 0 := by omega
  rw [if_neg hwhole, hnegative, pow_zero, Nat.mul_one]
  by_cases hinside : 0 < (digits.length : Int) + exponent
  · rw [if_pos hinside]
    generalize hpoint : ((digits.length : Int) + exponent).toNat = point
    have hne : digits.drop point ≠ [] := by
      have hdrop : 0 < (digits.drop point).length := by
        rw [List.length_drop]
        omega
      exact List.ne_nil_of_length_pos hdrop
    have htake : 0 < (digits.take point).length := by
      rw [List.length_take]
      omega
    refine ⟨digits.take point, digits.drop point, (pointChars_of_ne_nil _ hne).symm,
      ⟨List.ne_nil_of_length_pos htake, ?_⟩, ?_, ?_, ?_⟩
    · exact fun c hc => h.all c (List.mem_of_mem_take hc)
    · exact fun c hc => h.all c (List.mem_of_mem_drop hc)
    · rw [List.take_append_drop]
    · rw [List.length_drop]
      omega
  · rw [if_neg hinside]
    generalize hzeros : (-((digits.length : Int) + exponent)).toNat = zeros
    have hne : List.replicate zeros '0' ++ digits ≠ [] := by simp [h.nonempty]
    refine ⟨['0'], List.replicate zeros '0' ++ digits, ?_, Text.isRun_iff.mp rfl, ?_, ?_, ?_⟩
    · rw [pointChars_of_ne_nil _ hne]
      rfl
    · intro c hc
      rcases List.mem_append.mp hc with hc | hc
      · exact isDigit_of_mem_zeros hc
      · exact h.all c hc
    · have hzero : ['0'] ++ (List.replicate zeros '0' ++ digits) =
          List.replicate (zeros + 1) '0' ++ digits := rfl
      rw [hzero, ofDigits_zeros_append]
    · rw [List.length_append, List.length_replicate]
      omega

/-- The plain form of a finite magnitude denotes a decimal number that rounds to it. -/
theorem magnitudeChars_plain {f : Format} {m : Nat} (h : m ≤ f.infinity) :
    ∃ whole fraction, Layout.plain.magnitudeChars f m = pointChars whole fraction ∧
      IsDigits whole ∧ (∀ c ∈ fraction, c.isDigit = true) ∧
      nearest f (ofDigits (whole ++ fraction)) (10 ^ fraction.length) = m := by
  by_cases hzero : m = 0
  · subst hzero
    exact ⟨['0'], [], rfl, Text.isRun_iff.mp rfl, nofun, nearest_zero f (by decide)⟩
  have hmagnitude := Decimal.magnitude_shortest Layout.plain.tie h
  generalize hd : Decimal.shortest f Layout.plain.tie m = d at hmagnitude
  have hcoefficient : d.coefficient ≠ 0 := by
    apply Decimal.coefficient_ne_zero (f := f)
    rw [hmagnitude]
    exact hzero
  obtain ⟨hdigits, zeros, hvalue, hexponent⟩ := Decimal.significant_spec hcoefficient
  obtain ⟨whole, fraction, hchars, hwhole, hfraction, hofDigits, hlength⟩ :=
    positionalChars_eq hdigits d.significant.2
  refine ⟨whole, fraction, ?_, hwhole, hfraction, ?_⟩
  · rw [← hchars, Layout.magnitudeChars, if_neg hzero, hd]
    rfl
  · have hsame : d.magnitude f =
        (⟨ofDigits d.significant.1, d.significant.2⟩ : Decimal).magnitude f :=
      Decimal.magnitude_congr f hvalue hexponent
    rw [hofDigits, hlength, ← hmagnitude, hsame]
    rfl

/-- The plain form of a finite number: a minus sign if it is negative, and the form of its
magnitude. -/
theorem Binary.chars_plain {f : Format} {x : Binary f} (h : x.isFinite = true) :
    ∃ whole fraction,
      x.chars .plain = (if x.negative then ['-'] else []) ++ pointChars whole fraction ∧
      IsDigits whole ∧ (∀ c ∈ fraction, c.isDigit = true) ∧
      Binary.ofRatio f x.negative (ofDigits (whole ++ fraction)) (10 ^ fraction.length) = x := by
  have hlt : x.magnitude < f.infinity := of_decide_eq_true h
  have hnan : x.isNaN = false := decide_eq_false (by omega)
  obtain ⟨whole, fraction, hchars, hwhole, hfraction, hnearest⟩ :=
    magnitudeChars_plain (Nat.le_of_lt hlt)
  refine ⟨whole, fraction, ?_, hwhole, hfraction, ?_⟩
  · simp [chars, hnan, h, hchars]
  · obtain ⟨negative, magnitude, hmagnitude⟩ := x
    simp only [ofRatio, hnearest]

end CommandScript.Numeric
