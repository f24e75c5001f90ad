import Mathlib.Tactic.Ring
import CommandScript.Numeric.Shortest

/-! Rounding to the nearest floating-point number: it depends on the ratio alone, and each finite
number rounds to itself. So the shortest decimal number that is found rounds back. -/
namespace CommandScript.Numeric

theorem divNearest_mul_left (n d : Nat) {k : Nat} (hk : 0 < k) :
    divNearest (k * n) (k * d) = divNearest n d := by
  have hquotient : k * n / (k * d) = n / d := Nat.mul_div_mul_left n d hk
  have hremainder : 2 * (k * n % (k * d)) = k * (2 * (n % d)) := by
    rw [Nat.mul_mod_mul_left]
    ring
  have hbelow : k * (2 * (n % d)) < k * d ↔ 2 * (n % d) < d := Nat.mul_lt_mul_left hk
  have habove : k * d < k * (2 * (n % d)) ↔ d < 2 * (n % d) := Nat.mul_lt_mul_left hk
  simp only [divNearest, hquotient, hremainder, hbelow, habove]

theorem divNearest_mul_right (q : Nat) {d : Nat} (hd : 0 < d) : divNearest (q * d) d = q := by
  simp [divNearest, Nat.mul_div_cancel q hd, hd]

theorem nearest_mul_left (f : Format) (n d : Nat) {k : Nat} (hk : 0 < k) :
    nearest f (k * n) (k * d) = nearest f n d := by
  have hscaled : k * n * Nat.pow 2 f.unitExponent = k * (n * Nat.pow 2 f.unitExponent) :=
    Nat.mul_assoc _ _ _
  have hquotient : k * (n * Nat.pow 2 f.unitExponent) / (k * d) =
      n * Nat.pow 2 f.unitExponent / d := Nat.mul_div_mul_left _ _ hk
  simp only [nearest, hscaled, hquotient, Nat.mul_assoc k d, divNearest_mul_left _ _ hk]

/-- Equal ratios round to the same magnitude. -/
theorem nearest_congr (f : Format) {n d n' d' : Nat} (hd : 0 < d) (hd' : 0 < d')
    (h : n * d' = n' * d) : nearest f n d = nearest f n' d' := by
  calc nearest f n d = nearest f (d' * n) (d' * d) := (nearest_mul_left f n d hd').symm
    _ = nearest f (d * n') (d * d') := by
      rw [Nat.mul_comm d' n, h, Nat.mul_comm n' d, Nat.mul_comm d' d]
    _ = nearest f n' d' := nearest_mul_left f n' d' hd

namespace Format

theorem units_of_lt {f : Format} {m : Nat} (h : m < 2 ^ f.fractionBits) : f.units m = m := if_pos h

theorem units_of_le {f : Format} {m : Nat} (h : 2 ^ f.fractionBits ≤ m) :
    f.units m =
      (2 ^ f.fractionBits + m % 2 ^ f.fractionBits) * 2 ^ (m / 2 ^ f.fractionBits - 1) :=
  if_neg (Nat.not_lt.mpr h)

end Format

/-- A normal number has one bit more than its fraction, at the place that its exponent says. -/
theorem log2_significand {b r e : Nat} (h : r < 2 ^ b) : ((2 ^ b + r) * 2 ^ e).log2 = b + e := by
  have hpos : 0 < 2 ^ e := Nat.two_pow_pos e
  have hne : (2 ^ b + r) * 2 ^ e ≠ 0 := Nat.mul_ne_zero (by omega) (by omega)
  refine (Nat.log2_eq_iff hne).mpr ⟨?_, ?_⟩
  · rw [pow_add]
    exact Nat.mul_le_mul_right _ (by omega)
  · have hupper : 2 ^ (b + e + 1) = (2 ^ b + 2 ^ b) * 2 ^ e := by ring
    rw [hupper]
    exact Nat.mul_lt_mul_of_pos_right (by omega) hpos

/-- A ratio that is exactly a finite number rounds to it. -/
theorem nearest_of_units {f : Format} {m n d : Nat} (hd : 0 < d) (hm : m ≤ f.infinity)
    (h : n * 2 ^ f.unitExponent = f.units m * d) : nearest f n d = m := by
  have hquotient : f.units m * d / d = f.units m := Nat.mul_div_cancel _ hd
  have hrounded : ((f.units m).log2 - f.fractionBits) * 2 ^ f.fractionBits +
      divNearest (f.units m * d) (d * 2 ^ ((f.units m).log2 - f.fractionBits)) = m := by
    by_cases hsmall : m < 2 ^ f.fractionBits
    · have hshift : m.log2 - f.fractionBits = 0 := by
        by_cases hzero : m = 0
        · rw [hzero, Nat.log2_zero, Nat.zero_sub]
        · have hlog := (Nat.log2_lt hzero).mpr hsmall
          omega
      rw [Format.units_of_lt hsmall, hshift, Nat.zero_mul, Nat.zero_add, pow_zero, Nat.mul_one]
      exact divNearest_mul_right m hd
    · have hlarge : 2 ^ f.fractionBits ≤ m := Nat.not_lt.mp hsmall
      have hwidth : 0 < 2 ^ f.fractionBits := Nat.two_pow_pos _
      have hremainder : m % 2 ^ f.fractionBits < 2 ^ f.fractionBits := Nat.mod_lt _ hwidth
      have hexponent : 1 ≤ m / 2 ^ f.fractionBits := (Nat.one_le_div_iff hwidth).mpr hlarge
      have hdivision : 2 ^ f.fractionBits * (m / 2 ^ f.fractionBits) + m % 2 ^ f.fractionBits = m :=
        Nat.div_add_mod _ _
      rw [Format.units_of_le hlarge, log2_significand hremainder]
      generalize m / 2 ^ f.fractionBits = e at hexponent hdivision ⊢
      generalize m % 2 ^ f.fractionBits = r at hdivision ⊢
      obtain ⟨e, rfl⟩ := Nat.exists_eq_add_of_le hexponent
      have hshift : f.fractionBits + (1 + e - 1) - f.fractionBits = e := by omega
      have hproduct : (2 ^ f.fractionBits + r) * 2 ^ (1 + e - 1) * d =
          (2 ^ f.fractionBits + r) * (d * 2 ^ e) := by
        rw [Nat.add_sub_cancel_left]
        ring
      have hpos : 0 < d * 2 ^ e := Nat.mul_pos hd (Nat.two_pow_pos e)
      rw [hshift, hproduct, divNearest_mul_right _ hpos, ← hdivision]
      ring
  have hnearest : nearest f n d =
      min (((f.units m).log2 - f.fractionBits) * 2 ^ f.fractionBits +
        divNearest (f.units m * d) (d * 2 ^ ((f.units m).log2 - f.fractionBits))) f.infinity := by
    have hscaled : n * Nat.pow 2 f.unitExponent = f.units m * d := h
    simp only [nearest, hscaled, hquotient]
    rfl
  rw [hnearest, hrounded, Nat.min_eq_left hm]

theorem nearest_zero (f : Format) {d : Nat} (hd : 0 < d) : nearest f 0 d = 0 := by
  have hunits : f.units 0 = 0 := Format.units_of_lt (Nat.two_pow_pos _)
  refine nearest_of_units hd (Nat.zero_le _) ?_
  rw [hunits, Nat.zero_mul, Nat.zero_mul]

namespace Decimal

theorem denominator_pos (d : Decimal) : 0 < d.denominator := Nat.pow_pos (by decide)

/-- Decimal numbers of the same value round to the same magnitude. -/
theorem magnitude_congr (f : Format) {d d' : Decimal} {zeros : Nat}
    (hcoefficient : d.coefficient = d'.coefficient * 10 ^ zeros)
    (hexponent : d'.exponent = d.exponent + zeros) : d.magnitude f = d'.magnitude f := by
  refine nearest_congr f d.denominator_pos d'.denominator_pos ?_
  have hpowers : zeros + d.exponent.toNat + (-d'.exponent).toNat =
      d'.exponent.toNat + (-d.exponent).toNat := by omega
  calc d.coefficient * 10 ^ d.exponent.toNat * 10 ^ (-d'.exponent).toNat
      = d'.coefficient * 10 ^ (zeros + d.exponent.toNat + (-d'.exponent).toNat) := by
        rw [hcoefficient, pow_add, pow_add]
        ring
    _ = d'.coefficient * 10 ^ d'.exponent.toNat * 10 ^ (-d.exponent).toNat := by
        rw [hpowers, pow_add]
        ring

theorem magnitude_of_onGrid? {f : Format} {tie : Tie} {m : Nat} {exponent : Int} {d : Decimal}
    (h : onGrid? f tie m exponent = some d) : d.magnitude f = m := by
  unfold onGrid? at h
  dsimp only at h
  split at h
  · next hbelow habove =>
    cases h
    exact eq_of_beq hbelow
  · next hbelow habove =>
    cases h
    exact eq_of_beq habove
  · cases h
  · next hbelow habove =>
    cases tie with
    | up =>
      dsimp only at h
      split_ifs at h
      · cases h
        exact eq_of_beq hbelow
      · cases h
        exact eq_of_beq habove
      · cases h
        exact eq_of_beq habove
    | even =>
      dsimp only at h
      split_ifs at h
      · cases h
        exact eq_of_beq hbelow
      · cases h
        exact eq_of_beq habove
      · cases h
        exact eq_of_beq hbelow
      · cases h
        exact eq_of_beq habove

theorem magnitude_exact {f : Format} {m : Nat} (hm : m ≤ f.infinity) :
    (exact f m).magnitude f = m := by
  have hnumerator : (exact f m).numerator = f.units m * 5 ^ f.unitExponent := by
    have hexponent : (exact f m).exponent.toNat = 0 := by simp [exact]
    rw [numerator, hexponent]
    exact Nat.mul_one _
  have hdenominator : (exact f m).denominator = 10 ^ f.unitExponent := by
    have hexponent : (-(exact f m).exponent).toNat = f.unitExponent := by simp [exact]
    rw [denominator, hexponent]
    rfl
  refine nearest_of_units (denominator_pos _) hm ?_
  have hten : (10 : Nat) ^ f.unitExponent = 5 ^ f.unitExponent * 2 ^ f.unitExponent :=
    Nat.mul_pow 5 2 _
  rw [hnumerator, hdenominator, hten, Nat.mul_assoc]

/-- The decimal number that stands for a magnitude rounds back to it. -/
theorem magnitude_shortest {f : Format} {m : Nat} (tie : Tie) (hm : m ≤ f.infinity) :
    (shortest f tie m).magnitude f = m := by
  unfold shortest
  dsimp only
  generalize hfound : (List.range 17).findSome? _ = found
  cases found with
  | none => exact magnitude_exact hm
  | some d =>
    obtain ⟨i, -, hi⟩ := List.exists_of_findSome?_eq_some hfound
    exact magnitude_of_onGrid? hi

theorem coefficient_ne_zero {f : Format} {d : Decimal} (h : d.magnitude f ≠ 0) :
    d.coefficient ≠ 0 := by
  intro hzero
  apply h
  have hnumerator : d.numerator = 0 := by rw [numerator, hzero, Nat.zero_mul]
  rw [magnitude, hnumerator]
  exact nearest_zero f d.denominator_pos

end Decimal
end CommandScript.Numeric
