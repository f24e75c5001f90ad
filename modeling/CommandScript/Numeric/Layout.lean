import CommandScript.Numeric.Shortest

/-! Written forms of floating-point numbers. -/
namespace CommandScript.Numeric

/-- The choices that a written form of floating-point numbers makes. -/
structure Layout where
  tie : Tie
  /-- Whether a number is written without an exponent, by the power of ten of its first digit. -/
  positional : Int → Bool
  /-- Whether a whole number is written with a decimal place. -/
  wholePlace : Bool
  /-- Whether a positive exponent has a sign. -/
  exponentPlus : Bool

namespace Layout

/-- Digits and a decimal point, never an exponent. -/
def plain : Layout := ⟨.up, fun _ => true, false, false⟩

/-- At least one decimal place, and an exponent from `1e16` on and below `1e-4`. -/
def debug : Layout := ⟨.up, fun e => -4 ≤ e && e < 16, true, false⟩

/-- At least one decimal place, and a signed exponent from `1e16` on and below `1e-5`. -/
def json : Layout := ⟨.even, fun e => -5 ≤ e && e < 16, true, true⟩

end Layout

/-- Digits with a decimal point at the place that an exponent says. -/
def positionalChars (wholePlace : Bool) (digits : List Char) (exponent : Int) : List Char :=
  let point := digits.length + exponent
  if 0 ≤ exponent then
    digits ++ List.replicate exponent.toNat '0' ++ (if wholePlace then ['.', '0'] else [])
  else if 0 < point then digits.take point.toNat ++ '.' :: digits.drop point.toNat
  else '0' :: '.' :: (List.replicate (-point).toNat '0' ++ digits)

/-- One digit, the others behind a decimal point, and an exponent. -/
def scientificChars (exponentPlus : Bool) (digits : List Char) (exponent : Int) : List Char :=
  let lead := digits.take 1 ++ (if digits.length ≤ 1 then [] else '.' :: digits.drop 1)
  let sign := if exponentPlus && decide (0 ≤ exponent) then ['+'] else []
  lead ++ 'e' :: (sign ++ intChars exponent)

def Layout.magnitudeChars (l : Layout) (f : Format) (m : Nat) : List Char :=
  if m = 0 then '0' :: (if l.wholePlace then ['.', '0'] else [])
  else
    let (digits, exponent) := (Decimal.shortest f l.tie m).significant
    let first := exponent + digits.length - 1
    if l.positional first then positionalChars l.wholePlace digits exponent
    else scientificChars l.exponentPlus digits first

/-- The written form of a floating-point number, with words for infinity and NaN. -/
def Binary.chars (l : Layout) {f : Format} (x : Binary f) : List Char :=
  if x.isNaN then ['N', 'a', 'N']
  else
    (if x.negative then ['-'] else []) ++
      (if x.isFinite then l.magnitudeChars f x.magnitude else ['i', 'n', 'f'])

/-- The written form of a floating-point number, as a string. -/
def Binary.text (l : Layout) {f : Format} (x : Binary f) : String := String.ofList (x.chars l)

end CommandScript.Numeric
