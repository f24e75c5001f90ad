import CommandScript.Grammar.Element
import CommandScript.Grammar.Literal

/-! Usage lines: how one command is written. -/
namespace CommandScript.Grammar
open Numeric

/-- A command word and what follows it. -/
structure Usage where
  command : String
  parameters : List Element
deriving DecidableEq

/-- All elements of a usage line, the command word first. -/
def Usage.elements (u : Usage) : List Element := .literal u.command :: u.parameters

/-- Why a line is no usage line. -/
inductive UsageError.Cause
  | malformed
  | noCommandWord
  | greedyNotLast
deriving DecidableEq

/-- A line that is no usage line. -/
structure UsageError where
  usage : String
  cause : UsageError.Cause
deriving DecidableEq

/-- The text of a cause. For a malformed line it is a report on what could not be read, the wording
of which is left open. -/
def UsageError.Cause.message (report : String) : UsageError.Cause → String
  | malformed => report
  | noCommandWord => "usage must start with a literal"
  | greedyNotLast => "greedy argument must be the last element"

/-- The text of an error, with the report on a malformed line if one is given. -/
def UsageError.message (e : UsageError) (report : String → String := fun _ => "") : String :=
  "Invalid usage '" ++ e.usage ++ "': " ++ e.cause.message (report e.usage)

def isLiteralChar (c : Char) : Bool := c.isAlphanum || c == '_' || c == '-' || c == '.'

def isNameChar (c : Char) : Bool := c.isAlphanum || c == '_'

def readOptional {α : Type} (read : List Char → Option (α × List Char)) (cs : List Char) :
    Option α × List Char :=
  match read cs with
  | some (x, rest) => (some x, rest)
  | none => (none, cs)

def readBounds {α : Type} (read : List Char → Option (α × List Char)) :
    List Char → Option (Bounds α × List Char)
  | '(' :: cs =>
    match readOptional read cs with
    | (min, '.' :: '.' :: cs) =>
      match readOptional read cs with
      | (max, ')' :: cs) => some (⟨min, max⟩, cs)
      | _ => none
    | _ => none
  | cs => some (.free, cs)

/-- Reads a kind: its keyword, and bounds where the kind has them. -/
def readKind (cs : List Char) : Option (Kind × List Char) :=
  let rest := cs.dropWhile Char.isLower
  match String.ofList (cs.takeWhile Char.isLower) with
  | "word" => some (.word, rest)
  | "string" => some (.string, rest)
  | "greedy" => some (.greedy, rest)
  | "bool" => some (.bool, rest)
  | "resource" => some (.resource, rest)
  | "integer" => (readBounds readInteger rest).map fun r => (.integer r.1, r.2)
  | "float" => (readBounds readFloat rest).map fun r => (.float r.1, r.2)
  | _ => none

/-- The element that a word of a usage line denotes. -/
def Element.parse? : List Char → Option Element
  | '<' :: cs =>
    let name := cs.takeWhile isNameChar
    match cs.dropWhile isNameChar with
    | ':' :: cs =>
      match readKind cs with
      | some (kind, ['>']) =>
        if name.isEmpty then none else some (.argument (String.ofList name) kind)
      | _ => none
    | _ => none
  | cs => if !cs.isEmpty && cs.all isLiteralChar then some (.literal (String.ofList cs)) else none

/-- Reads a usage line: elements with one space between them, a literal first, and a greedy
argument at most in the last place. -/
def Usage.parse (line : String) : Except UsageError Usage :=
  match (line.toList.splitOn ' ').mapM Element.parse? with
  | some (.literal command :: parameters) =>
    if parameters.dropLast.any Element.isGreedy then .error ⟨line, .greedyNotLast⟩
    else .ok ⟨command, parameters⟩
  | some _ => .error ⟨line, .noCommandWord⟩
  | none => .error ⟨line, .malformed⟩

end CommandScript.Grammar
