import CommandScript.Text.GraphemeExtend
import CommandScript.Text.Invisible

/-! Quoted text in which everything that could not be seen is written as an escape. -/
namespace CommandScript.Text.Escaped

def byNumber (c : Char) : List Char :=
  '\\' :: 'u' :: '\x7b' :: (Nat.toDigits 16 c.toNat ++ ['\x7d'])

/-- Whether a character is seen only as a part of that before it. The half-width sound marks extend
the character before them, but they have a width of their own. -/
def isMark (c : Char) : Bool := isGraphemeExtend c && c != '\uff9e' && c != '\uff9f'

def escape (c : Char) : List Char :=
  match c with
  | '\x00' => ['\\', '0']
  | '\t' => ['\\', 't']
  | '\r' => ['\\', 'r']
  | '\n' => ['\\', 'n']
  | '"' => ['\\', '"']
  | '\\' => ['\\', '\\']
  | c => if isMark c || isInvisible c then byNumber c else [c]

def quote (s : String) : String := String.ofList ('"' :: s.toList.flatMap escape ++ ['"'])

end CommandScript.Text.Escaped
