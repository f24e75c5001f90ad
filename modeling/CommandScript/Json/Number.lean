import CommandScript.Json.Value
import CommandScript.Numeric.Digits

/-! Numbers of JSON texts. A number that is not a 64-bit integer becomes a double in few roundings:
its first digits as a 64-bit integer, then one factor of a power of ten. -/
namespace CommandScript.Json
open Numeric

/-- Appends digits to a number while it fits into 64 bits, and gives the digits that are left. -/
def gather : Nat → List Char → Nat × List Char
  | n, [] => (n, [])
  | n, d :: ds =>
    let n' := ofDigits [d] + 10 * n
    if n' < UInt64.size then gather n' ds else (n, d :: ds)

/-- The greatest power of ten that a double comes near to. -/
def maxPower : Nat := 308

/-- The double nearest to a power of ten. -/
def powerOfTen (k : Nat) : Nat := nearest .double (Nat.pow 10 k) 1

/-- The rounded quotient of two magnitudes. -/
def quotient (a b : Nat) : Nat := nearest .double (Format.double.units a) (Format.double.units b)

/-- The rounded product of two magnitudes. -/
def product (a b : Nat) : Nat :=
  nearest .double (Format.double.units a * Format.double.units b)
    (Nat.pow 2 (2 * Format.double.unitExponent))

/-- The magnitude times `10 ^ exponent`, if it is not too great. -/
def scale (magnitude : Nat) (exponent : Int) : Option Nat :=
  if exponent.natAbs ≤ maxPower then
    if 0 ≤ exponent then
      let m := product magnitude (powerOfTen exponent.natAbs)
      if m < Format.double.infinity then some m else none
    else some (quotient magnitude (powerOfTen exponent.natAbs))
  else if magnitude = 0 then some 0
  else if 0 ≤ exponent then none
  else scale (quotient magnitude (powerOfTen maxPower)) (exponent + maxPower)
termination_by exponent.natAbs
decreasing_by
  simp only [maxPower] at *
  omega

/-- The parts of a number as it is written. -/
structure Numeral where
  negative : Bool
  whole : List Char
  fraction : Option (List Char)
  exponent : Option Int

/-- The value of a numeral, if it is not too great. -/
def Numeral.value? (n : Numeral) : Option Number :=
  let (leading, skipped) := gather 0 n.whole
  let double (significand : Nat) (exponent : Int) : Option Number :=
    (scale (nearest .double significand 1) exponent).map fun m =>
      .double (.ofBits .double (if n.negative then Format.double.magnitudes + m else m))
  match n.fraction, n.exponent, skipped with
  | none, none, [] =>
    if n.negative && (leading == 0 || decide (UInt64.size < 2 * leading)) then double leading 0
    else some (.integer (signed n.negative leading))
  | fraction, exponent, skipped =>
    let digits := fraction.getD []
    let (significand, ignored) := gather leading digits
    double significand
      ((skipped.length : Int) - ((digits.length - ignored.length : Nat) : Int) + exponent.getD 0)

def readDigits (cs : List Char) : Option (List Char × List Char) :=
  let digits := cs.takeWhile Char.isDigit
  if digits.isEmpty then none else some (digits, cs.dropWhile Char.isDigit)

def readWhole (cs : List Char) : Option (List Char × List Char) :=
  match readDigits cs with
  | some ('0' :: _ :: _, _) => none
  | r => r

/-- Reads a decimal point with digits behind it, if there is a point. -/
def readPoint : List Char → Option (Option (List Char) × List Char)
  | '.' :: cs => (readDigits cs).map fun r => (some r.1, r.2)
  | cs => some (none, cs)

def readExponent : List Char → Option (Option Int × List Char)
  | [] => some (none, [])
  | c :: cs =>
    if c = 'e' || c = 'E' then
      let (negative, body) := match cs with
        | '+' :: cs => (false, cs)
        | cs => splitSign cs
      (readDigits body).map fun r => (some (signed negative (ofDigits r.1)), r.2)
    else some (none, c :: cs)

def readNumeral (cs : List Char) : Option (Numeral × List Char) := do
  let (negative, cs) := splitSign cs
  let (whole, cs) ← readWhole cs
  let (fraction, cs) ← readPoint cs
  let (exponent, cs) ← readExponent cs
  return (⟨negative, whole, fraction, exponent⟩, cs)

end CommandScript.Json
