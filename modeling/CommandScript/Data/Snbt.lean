import CommandScript.Data.Value
import CommandScript.Numeric.Layout
import CommandScript.Text.Quoted

/-! Written forms of typed values. In SNBT a number has the letter of its type behind it, and a
string is quoted unless it is a plain word. -/
namespace CommandScript
open Numeric Text

/-- Whether a text is a letter or an underscore, and letters, digits and underscores after it. -/
def isPlainWord : List Char → Bool
  | [] => false
  | c :: cs => (c.isAlpha || c == '_') && cs.all fun c => c.isAlphanum || c == '_'

def snbtString (s : String) : List Char :=
  if isPlainWord s.toList then s.toList else Quoted.encode s.toList

mutual

def Value.snbtChars : Value → List Char
  | .byte n => intChars n.toInt ++ ['b']
  | .short n => intChars n.toInt ++ ['s']
  | .int n => intChars n.toInt
  | .long n => intChars n.toInt ++ ['L']
  | .float x => x.chars .plain ++ ['f']
  | .double x => x.chars .plain ++ ['d']
  | .string s => snbtString s
  | .list [] => ['[', ']']
  | .list (v :: items) => '[' :: (v.snbtChars ++ snbtItems items ++ [']'])
  | .compound [] => ['\x7b', '\x7d']
  | .compound ((name, v) :: entries) =>
    '\x7b' :: (snbtString name ++ ':' :: (v.snbtChars ++ snbtEntries entries ++ ['\x7d']))

def snbtItems : List Value → List Char
  | [] => []
  | v :: items => ',' :: (v.snbtChars ++ snbtItems items)

def snbtEntries : List (String × Value) → List Char
  | [] => []
  | (name, v) :: entries => ',' :: (snbtString name ++ ':' :: (v.snbtChars ++ snbtEntries entries))

end

def Value.snbt (v : Value) : String := String.ofList v.snbtChars

def Compound.snbt (c : Compound) : String := c.toValue.snbt

/-- The text that a placeholder is replaced with: bare numbers and strings, SNBT for the rest. -/
def Value.text : Value → String
  | .byte n => intText n.toInt
  | .short n => intText n.toInt
  | .int n => intText n.toInt
  | .long n => intText n.toInt
  | .float x => x.text .plain
  | .double x => x.text .plain
  | .string s => s
  | v => v.snbt

end CommandScript
