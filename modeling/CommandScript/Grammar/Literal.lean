import CommandScript.Numeric.Binary
import CommandScript.Numeric.Digits

/-! Numbers at the start of a text. -/
namespace CommandScript.Grammar
open Numeric

/-- The 64-bit integer equal to `i`, if there is one. -/
def int64? (i : Int) : Option Int64 :=
  if h : Int64.minValue.toInt ≤ i ∧ i ≤ Int64.maxValue.toInt then
    some (Int64.ofIntLE i h.1 h.2)
  else none

/-- Reads an optional minus sign and digits that denote a 64-bit integer. -/
def readInteger (cs : List Char) : Option (Int64 × List Char) :=
  let (negative, body) := splitSign cs
  let digits := body.takeWhile Char.isDigit
  if digits.isEmpty then none
  else (int64? (signed negative (ofDigits digits))).map (·, body.dropWhile Char.isDigit)

/-- Reads a decimal point and at least one digit, and gives those digits. -/
def readFraction : List Char → Option (List Char × List Char)
  | '.' :: cs =>
    let digits := cs.takeWhile Char.isDigit
    if digits.isEmpty then none else some (digits, cs.dropWhile Char.isDigit)
  | _ => none

/-- The number nearest to the decimal number with the given digits around its point. -/
def ofDecimalDigits (negative : Bool) (whole fraction : List Char) : Binary64 :=
  .ofRatio .double negative (ofDigits (whole ++ fraction)) (Nat.pow 10 fraction.length)

/-- Reads an optional minus sign and a decimal number; digits may be missing on one side of the
point, but a point has digits behind it. -/
def readFloat (cs : List Char) : Option (Binary64 × List Char) :=
  let (negative, body) := splitSign cs
  let whole := body.takeWhile Char.isDigit
  let rest := body.dropWhile Char.isDigit
  match readFraction rest with
  | some (fraction, rest) => some (ofDecimalDigits negative whole fraction, rest)
  | none => if whole.isEmpty then none else some (ofDecimalDigits negative whole [], rest)

/-- Applies a reader that has to take the whole text. -/
def readAll {α : Type} (read : List Char → Option (α × List Char)) (cs : List Char) : Option α :=
  match read cs with
  | some (x, []) => some x
  | _ => none

end CommandScript.Grammar
