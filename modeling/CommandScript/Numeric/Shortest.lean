import CommandScript.Numeric.Binary
import CommandScript.Numeric.Digits

/-! The shortest decimal number that rounds to a given floating-point number. -/
namespace CommandScript.Numeric

/-- The decimal number `coefficient * 10 ^ exponent`. -/
structure Decimal where
  coefficient : Nat
  exponent : Int
deriving DecidableEq

/-- Which of two equally near decimal numbers is taken. -/
inductive Tie
  | up
  | even
deriving DecidableEq

namespace Decimal

def numerator (d : Decimal) : Nat := d.coefficient * Nat.pow 10 d.exponent.toNat

def denominator (d : Decimal) : Nat := Nat.pow 10 (-d.exponent).toNat

/-- The magnitude that a decimal number rounds to. -/
def magnitude (f : Format) (d : Decimal) : Nat := nearest f d.numerator d.denominator

/-- The number of digits before the decimal point of `n / d`, or minus the number of zeros behind
it. -/
def pointOf (n d : Nat) : Int :=
  if d ≤ n then (natChars (n / d)).length
  else if n = 0 then 0
  else 1 - ((natChars ((d + n - 1) / n - 1)).length : Int)

/-- The nearer of the two multiples of `10 ^ exponent` around the magnitude `m` that reads back. -/
def onGrid? (f : Format) (tie : Tie) (m : Nat) (exponent : Int) : Option Decimal :=
  let n := f.units m * Nat.pow 10 (-exponent).toNat
  let d := Nat.pow 2 f.unitExponent * Nat.pow 10 exponent.toNat
  let below : Decimal := ⟨n / d, exponent⟩
  let above : Decimal := ⟨n / d + 1, exponent⟩
  match below.magnitude f == m, above.magnitude f == m with
  | true, false => some below
  | false, true => some above
  | false, false => none
  | true, true =>
    let r := 2 * (n % d)
    if r < d then some below
    else if d < r then some above
    else match tie with
      | .up => some above
      | .even => some (if below.coefficient % 2 = 0 then below else above)

/-- The exact value of the magnitude `m`. -/
def exact (f : Format) (m : Nat) : Decimal :=
  ⟨f.units m * Nat.pow 5 f.unitExponent, -(f.unitExponent : Int)⟩

/-- A decimal number that rounds to the finite magnitude `m`: one on the coarsest grid that has
such a number, of those the nearest. -/
def shortest (f : Format) (tie : Tie) (m : Nat) : Decimal :=
  let point := pointOf (f.units m) (Nat.pow 2 f.unitExponent)
  ((List.range 17).findSome? fun i : Nat =>
    onGrid? f tie m (point - (i + 1 : Nat))).getD (exact f m)

/-- The digits of the coefficient up to the last that is not zero, and the exponent of that one. -/
def significant (d : Decimal) : List Char × Int :=
  let digits := natChars d.coefficient
  let kept := (digits.reverse.dropWhile (· == '0')).reverse
  (kept, d.exponent + ((digits.length - kept.length : Nat) : Int))

end Decimal
end CommandScript.Numeric
