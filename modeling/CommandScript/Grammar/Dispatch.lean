import CommandScript.Grammar.Command
import CommandScript.Grammar.Tree
import CommandScript.Text.Blank

/-! Reading a command line with a command tree. -/
namespace CommandScript.Grammar
open Text

/-- A fault at a byte offset. -/
structure Failure where
  cursor : Nat
  fault : Fault
deriving DecidableEq

/-- What a search keeps: the nodes matched on the current path, newest first, and the deepest
failure so far. -/
structure Search where
  trail : List Node
  deepest : Option Failure
deriving DecidableEq

namespace Search

def start : Search := ⟨[], none⟩

/-- Notes a failure; of two equally deep ones the earlier stays. -/
def fail (s : Search) (cursor : Nat) (fault : Fault) : Search :=
  match s.deepest with
  | some f => if f.cursor < cursor then { s with deepest := some ⟨cursor, fault⟩ } else s
  | none => { s with deepest := some ⟨cursor, fault⟩ }

def push (s : Search) (n : Node) : Search := { s with trail := n :: s.trail }

def pop (s : Search) : Search := { s with trail := s.trail.tail }

end Search

/-- Matches one element at the start of a text. A wrong literal is an unknown command as the first
word and an incorrect argument later. -/
def Element.read (first : Bool) (cs : List Char) : Element → Except Fault (Argument × List Char)
  | literal text =>
    if cs.takeWhile isTokenChar = text.toList then
      .ok (.literal text, cs.dropWhile isTokenChar)
    else .error (if first then .unknownCommand else .incorrectArgument)
  | argument _ kind => kind.read cs

/-- Literals are tried before arguments. -/
inductive Rank
  | literals
  | arguments
deriving DecidableEq

def Rank.admits : Rank → Element → Bool
  | literals, e => e.isLiteral
  | arguments, e => !e.isLiteral

/-- Tries the nodes of one rank on the top level in order, each with all that is below it, on the
text `cs` at the offset `cursor`, until one of them takes the text to its end. -/
def Forest.walk : Forest → Rank → Nat → List Char → Search → Bool × Search
  | nil, _, _, _, s => (false, s)
  | cons e executable children siblings, rank, cursor, cs, s =>
    if !rank.admits e then siblings.walk rank cursor cs s
    else
      match e.read s.trail.isEmpty cs with
      | .error fault => siblings.walk rank cursor cs (s.fail cursor fault)
      | .ok (value, rest) =>
        let next := cursor + (byteSize cs - byteSize rest)
        let matched := s.push ⟨e.name, value⟩
        match rest with
        | [] =>
          if executable then (true, matched)
          else siblings.walk rank cursor cs (matched.fail next .incompleteCommand).pop
        | ' ' :: rest =>
          match children with
          | nil => siblings.walk rank cursor cs (matched.fail next .trailingData).pop
          | children =>
            match children.walk .literals (next + 1) rest matched with
            | (true, s) => (true, s)
            | (false, s) =>
              match children.walk .arguments (next + 1) rest s with
              | (true, s) => (true, s)
              | (false, s) => siblings.walk rank cursor cs s.pop
        | _ => siblings.walk rank cursor cs (matched.fail next .expectedWhitespace).pop

/-- Reads a command line. Of the failed attempts the one that came furthest is reported. -/
def Tree.parse (t : Tree) (input : String) : Except SyntaxError Command :=
  let cs := input.toList
  if cs.all isBlank then .error ⟨.emptyCommand, input, 0⟩
  else
    match t.roots.walk .literals 0 cs .start with
    | (true, s) => .ok ⟨input, s.trail.reverse⟩
    | (false, s) =>
      let f := s.deepest.getD ⟨0, .unknownCommand⟩
      .error ⟨f.fault, input, f.cursor⟩

end CommandScript.Grammar
