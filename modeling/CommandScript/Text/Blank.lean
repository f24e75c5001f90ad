/-! The characters of the Unicode property White_Space, and trimming. -/
namespace CommandScript.Text

/-- Membership in the Unicode property White_Space. -/
def isBlank (c : Char) : Bool :=
  let n := c.toNat
  (0x09 ≤ n && n ≤ 0x0d) || n == 0x20 || n == 0x85 || n == 0xa0 || n == 0x1680 ||
    (0x2000 ≤ n && n ≤ 0x200a) || n == 0x2028 || n == 0x2029 || n == 0x202f || n == 0x205f ||
    n == 0x3000

/-- The text without the characters at its end that satisfy `p`. -/
def dropWhileEnd (p : Char → Bool) (cs : List Char) : List Char := (cs.reverse.dropWhile p).reverse

def trimEnd (cs : List Char) : List Char := dropWhileEnd isBlank cs

def trim (cs : List Char) : List Char := trimEnd (cs.dropWhile isBlank)

end CommandScript.Text
