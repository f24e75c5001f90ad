/-! Binary floating-point numbers, as a sign and a magnitude in the order of the encodings. -/
namespace CommandScript.Numeric

/-- A binary interchange format, by the widths of its fields. -/
structure Format where
  fractionBits : Nat
  exponentBits : Nat
deriving DecidableEq

namespace Format

/-- Thirty-two bits, with twenty-four of precision. -/
def single : Format := ⟨23, 8⟩

/-- Sixty-four bits, with fifty-three of precision. -/
def double : Format := ⟨52, 11⟩

/-- Finite numbers are whole multiples of the unit `2 ^ -unitExponent`. -/
def unitExponent (f : Format) : Nat := Nat.pow 2 (f.exponentBits - 1) - 2 + f.fractionBits

/-- The magnitude of infinity; those of numbers are smaller, those of NaN are greater. -/
def infinity (f : Format) : Nat := (Nat.pow 2 f.exponentBits - 1) * Nat.pow 2 f.fractionBits

/-- The number of different magnitudes. -/
def magnitudes (f : Format) : Nat := Nat.pow 2 f.exponentBits * Nat.pow 2 f.fractionBits

theorem infinity_lt_magnitudes (f : Format) : f.infinity < f.magnitudes := by
  have he : 0 < Nat.pow 2 f.exponentBits := Nat.two_pow_pos _
  have hf : 0 < Nat.pow 2 f.fractionBits := Nat.two_pow_pos _
  exact Nat.mul_lt_mul_of_pos_right (by omega) hf

/-- The size in units of the finite number with magnitude `m`. -/
def units (f : Format) (m : Nat) : Nat :=
  let width := Nat.pow 2 f.fractionBits
  if m < width then m else (width + m % width) * Nat.pow 2 (m / width - 1)

end Format

/-- The integer nearest to `n / d`; of two equally near ones, the even one. -/
def divNearest (n d : Nat) : Nat :=
  let q := n / d
  let r := 2 * (n % d)
  if r < d then q else if d < r then q + 1 else q + q % 2

/-- The magnitude nearest to `n / d`, with ties to even; infinity beyond the greatest number. -/
def nearest (f : Format) (n d : Nat) : Nat :=
  let scaled := n * Nat.pow 2 f.unitExponent
  let shift := (scaled / d).log2 - f.fractionBits
  min (shift * Nat.pow 2 f.fractionBits + divNearest scaled (d * Nat.pow 2 shift)) f.infinity

theorem nearest_lt_magnitudes (f : Format) (n d : Nat) : nearest f n d < f.magnitudes :=
  Nat.lt_of_le_of_lt (Nat.min_le_right _ _) f.infinity_lt_magnitudes

/-- A floating-point number: its sign bit, and the rest of its encoding as a natural number. -/
structure Binary (f : Format) where
  negative : Bool
  magnitude : Nat
  magnitude_lt : magnitude < f.magnitudes
deriving DecidableEq

abbrev Binary32 := Binary .single

abbrev Binary64 := Binary .double

namespace Binary

variable {f : Format}

/-- The number nearest to `n / d`, with a sign in front of it. -/
def ofRatio (f : Format) (negative : Bool) (n d : Nat) : Binary f :=
  ⟨negative, nearest f n d, nearest_lt_magnitudes f n d⟩

def ofInt (f : Format) (i : Int) : Binary f := ofRatio f (i < 0) i.natAbs 1

/-- The encoding, read as a natural number. -/
def toBits (x : Binary f) : Nat := if x.negative then f.magnitudes + x.magnitude else x.magnitude

/-- The number whose encoding is given by the low bits of `n`. -/
def ofBits (f : Format) (n : Nat) : Binary f :=
  ⟨n / f.magnitudes % 2 == 1, n % f.magnitudes,
    Nat.mod_lt _ (Nat.zero_lt_of_lt f.infinity_lt_magnitudes)⟩

def isFinite (x : Binary f) : Bool := x.magnitude < f.infinity

def isNaN (x : Binary f) : Bool := f.infinity < x.magnitude

/-- The place among the numbers and infinities of a format; both zeros have place zero. -/
def place (x : Binary f) : Int := if x.negative then -(x.magnitude : Int) else x.magnitude

/-- Numerical order, in which NaN takes no part. -/
def lt (x y : Binary f) : Bool := !x.isNaN && !y.isNaN && decide (x.place < y.place)

/-- Numerical equality: the two zeros are equal, and NaN differs from itself. -/
def numEq (x y : Binary f) : Bool := !x.isNaN && !y.isNaN && decide (x.place = y.place)

end Binary
end CommandScript.Numeric
