import CommandScript.Grammar.Kind
import CommandScript.Grammar.Literal
import CommandScript.Grammar.SyntaxError
import CommandScript.Text.Quoted

/-! Values of command arguments, and reading one at the start of a text. -/
namespace CommandScript.Grammar
open Numeric

/-- What one word of a command was read as. -/
inductive Argument
  | literal (text : String)
  | word (text : String)
  | string (text : String)
  | integer (value : Int64)
  | float (value : Binary64)
  | bool (value : Bool)
  | resource (space : Option String) (path : String)
deriving DecidableEq

namespace Argument

def text? : Argument → Option String
  | literal s | word s | string s => some s
  | _ => none

def integer? : Argument → Option Int64
  | integer n => some n
  | _ => none

def isLiteral : Argument → Bool
  | literal _ => true
  | _ => false

end Argument

/-- Whether a character does not end a word. -/
def isTokenChar (c : Char) : Bool := c != ' '

/-- Whether a character may stand in the namespace of a resource. -/
def isResourceSpaceChar (c : Char) : Bool :=
  c.isLower || c.isDigit || c == '_' || c == '-' || c == '.'

/-- Whether a character may stand in the path of a resource. -/
def isResourcePathChar (c : Char) : Bool := isResourceSpaceChar c || c == '/'

/-- Splits a resource location into a namespace, if it has one, and a path. -/
def readResource (token : List Char) : Option (Option String × String) :=
  let space := token.takeWhile isResourceSpaceChar
  let isPath (cs : List Char) : Bool := !cs.isEmpty && cs.all isResourcePathChar
  match token.dropWhile isResourceSpaceChar with
  | ':' :: path =>
    if !space.isEmpty && isPath path then some (some (String.ofList space), String.ofList path)
    else none
  | _ => if isPath token then some (none, String.ofList token) else none

def Bounds.checkInteger (b : Bounds Int64) (value : Int64) : Except Fault Argument :=
  match b.min.filter (value < ·), b.max.filter (· < value) with
  | some min, _ => .error (.integerTooLow value min)
  | none, some max => .error (.integerTooHigh value max)
  | none, none => .ok (.integer value)

def Bounds.checkFloat (b : Bounds Binary64) (value : Binary64) : Except Fault Argument :=
  match b.min.filter value.lt, b.max.filter (·.lt value) with
  | some min, _ => .error (.floatTooLow value min)
  | none, some max => .error (.floatTooHigh value max)
  | none, none => .ok (.float value)

namespace Kind

def readToken (k : Kind) (token : List Char) : Except Fault Argument :=
  let text := String.ofList token
  match k with
  | word => .ok (.word text)
  | string | greedy => .ok (.string text)
  | integer bounds =>
    match readAll readInteger token with
    | some n => bounds.checkInteger n
    | none => .error (.invalidInteger text)
  | float bounds =>
    match readAll readFloat token with
    | some x => bounds.checkFloat x
    | none => .error (.invalidFloat text)
  | bool =>
    match text with
    | "true" => .ok (.bool true)
    | "false" => .ok (.bool false)
    | _ => .error (.invalidBool text)
  | resource =>
    match readResource token with
    | some (space, path) => .ok (.resource space path)
    | none => .error (.invalidResource text)

/-- Reads the word at the start of a text, which may not be empty. -/
def readWord (k : Kind) (cs : List Char) : Except Fault (Argument × List Char) :=
  let token := cs.takeWhile isTokenChar
  if token.isEmpty then .error (.expectedArgument k.description)
  else (k.readToken token).map (·, cs.dropWhile isTokenChar)

/-- Reads an argument at the start of a text, and gives its value and the text behind it. -/
def read (k : Kind) (cs : List Char) : Except Fault (Argument × List Char) :=
  match k, cs with
  | greedy, [] => .error (.expectedArgument greedy.description)
  | greedy, cs => .ok (.string (String.ofList cs), [])
  | string, '"' :: body =>
    match Text.Quoted.decode ('"' :: body) with
    | some (s, rest) => .ok (.string (String.ofList s), rest)
    | none => .error .invalidQuotedString
  | k, cs => k.readWord cs

end Kind
end CommandScript.Grammar
