import CommandScript.Json.Value
import CommandScript.Numeric.Layout

/-! Written forms of JSON values: compact, and with one item a line. -/
namespace CommandScript.Json
open Numeric

def hex2 (n : Nat) : List Char := [Nat.digitChar (n / 16), Nat.digitChar (n % 16)]

def escape (c : Char) : List Char :=
  match c with
  | '"' => ['\\', '"']
  | '\\' => ['\\', '\\']
  | '\x08' => ['\\', 'b']
  | '\x0c' => ['\\', 'f']
  | '\n' => ['\\', 'n']
  | '\r' => ['\\', 'r']
  | '\t' => ['\\', 't']
  | c => if c.toNat < 0x20 then '\\' :: 'u' :: '0' :: '0' :: hex2 c.toNat else [c]

def stringChars (s : String) : List Char := '"' :: s.toList.flatMap escape ++ ['"']

/-- The written form of a number; infinity and NaN have none and are written as null. -/
def Number.chars : Number → List Char
  | integer n => intChars n
  | double x => if x.isFinite then x.chars .json else ['n', 'u', 'l', 'l']

/-- Where line breaks and blanks go. -/
inductive Style
  | compact
  | indented
deriving DecidableEq

def Style.lineBreak : Style → Nat → List Char
  | compact, _ => []
  | indented, depth => '\n' :: List.replicate (2 * depth) ' '

/-- What stands between the name of a member and its value. -/
def Style.afterName : Style → List Char
  | compact => [':']
  | indented => [':', ' ']

mutual

def chars (style : Style) (depth : Nat) : Json → List Char
  | null => ['n', 'u', 'l', 'l']
  | bool true => ['t', 'r', 'u', 'e']
  | bool false => ['f', 'a', 'l', 's', 'e']
  | number n => n.chars
  | string s => stringChars s
  | array [] => ['[', ']']
  | array (v :: items) =>
    '[' :: (style.lineBreak (depth + 1) ++ v.chars style (depth + 1) ++
      itemsChars style (depth + 1) items ++ style.lineBreak depth ++ [']'])
  | object [] => ['\x7b', '\x7d']
  | object ((name, v) :: members) =>
    '\x7b' :: (style.lineBreak (depth + 1) ++ stringChars name ++ style.afterName ++
      v.chars style (depth + 1) ++ membersChars style (depth + 1) members ++
      style.lineBreak depth ++ ['\x7d'])

def itemsChars (style : Style) (depth : Nat) : List Json → List Char
  | [] => []
  | v :: items =>
    ',' :: (style.lineBreak depth ++ v.chars style depth ++ itemsChars style depth items)

def membersChars (style : Style) (depth : Nat) : List (String × Json) → List Char
  | [] => []
  | (name, v) :: members =>
    ',' :: (style.lineBreak depth ++ stringChars name ++ style.afterName ++ v.chars style depth ++
      membersChars style depth members)

end

def compact (v : Json) : String := String.ofList (v.chars .compact 0)

def indented (v : Json) : String := String.ofList (v.chars .indented 0)

end CommandScript.Json
