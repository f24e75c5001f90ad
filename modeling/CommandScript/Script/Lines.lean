import CommandScript.Template.Expansion
import CommandScript.Text.Blank
import CommandScript.Text.Lines

/-! Logical lines of function files. -/
namespace CommandScript.Script
open Text

/-- A line that goes on: the number of its first physical line, and its text so far. -/
structure Pending where
  number : Nat
  text : List Char

/-- Whether a trimmed line stands for nothing: it is empty, or a comment. -/
def isSkipped (line : List Char) : Bool := line.isEmpty || line.head? == some '#'

/-- Joins physical lines, of which the first has a given number. A backslash at the end of a
trimmed line makes the next one a part of it. -/
def joinLines (number : Nat) (pending : Option Pending) : List (List Char) → List Line
  | [] =>
    match pending with
    | none => []
    | some p =>
      let text := trimEnd p.text
      if text.isEmpty then [] else [⟨String.ofList text, p.number⟩]
  | physical :: rest =>
    let line := trim physical
    if pending.isNone && isSkipped line then joinLines (number + 1) none rest
    else
      let p := pending.getD ⟨number, []⟩
      if line.getLast? = some '\\' then
        joinLines (number + 1) (some ⟨p.number, p.text ++ line.dropLast⟩) rest
      else ⟨String.ofList (p.text ++ line), p.number⟩ :: joinLines (number + 1) none rest

/-- The logical lines of the text of a function file, numbered from one on. -/
def logicalLines (source : String) : List Line := joinLines 1 none (lines source.toList)

end CommandScript.Script
