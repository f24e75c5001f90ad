/-! Decimal digits of integers. -/
namespace CommandScript.Numeric

/-- The decimal digits of a natural number, with no leading zero but in `0`. -/
def natChars (n : Nat) : List Char := Nat.toDigits 10 n

/-- The decimal form of an integer, with a minus sign in front of the digits of a negative one. -/
def intChars (i : Int) : List Char :=
  if i < 0 then '-' :: natChars i.natAbs else natChars i.natAbs

def natText (n : Nat) : String := String.ofList (natChars n)

def intText (i : Int) : String := String.ofList (intChars i)

/-- The number that a sequence of decimal digits denotes. -/
def ofDigits (cs : List Char) : Nat := Nat.ofDigitChars 10 cs 0

/-- Splits an optional minus sign off the front of a text. -/
def splitSign : List Char → Bool × List Char
  | '-' :: cs => (true, cs)
  | cs => (false, cs)

def signed (negative : Bool) (n : Nat) : Int := if negative then -(n : Int) else n

theorem ofDigits_natChars (n : Nat) : ofDigits (natChars n) = n :=
  Nat.ofDigitChars_ten_toDigits

theorem isDigit_of_mem_natChars {n : Nat} {c : Char} (h : c ∈ natChars n) : c.isDigit :=
  Nat.isDigit_of_mem_toDigits (by decide) (by decide) h

theorem natChars_ne_nil (n : Nat) : natChars n ≠ [] := Nat.toDigits_ne_nil

end CommandScript.Numeric
