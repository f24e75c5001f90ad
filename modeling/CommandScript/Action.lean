import CommandScript.Grammar.Dispatch

/-! Commands bound to the source they run under, and what accepts them. -/
namespace CommandScript
open Grammar Numeric

/-- Who a command runs as. -/
structure Source where
  name : String
  level : UInt8
deriving DecidableEq

def Source.default : Source := ⟨"server", 2⟩

/-- An accepted command and its source. -/
structure Action where
  source : Source
  command : Command
deriving DecidableEq

def Action.text (a : Action) : String := a.command.text

/-- A refused command line, with the byte offset of the fault if there is one. -/
structure Rejection where
  message : String
  cursor : Option Nat
deriving DecidableEq

def Rejection.ofSyntaxError (e : SyntaxError) : Rejection := ⟨e.message, some e.cursor⟩

abbrev Validator := String → Source → Except Rejection Action

/-- The source of the actions to be made, and the validator that has to accept them. -/
structure Context where
  source : Source
  validate : Validator

/-- The validator of a command tree, with a limit on the length of a line in characters. -/
structure GrammarValidator where
  tree : Tree
  maxLength : Nat

namespace GrammarValidator

def defaultMaxLength : Nat := 32500

def builtin : GrammarValidator := ⟨.builtin, defaultMaxLength⟩

def tooLong (length max : Nat) : Rejection :=
  ⟨"Command too long: " ++ natText length ++ " characters (max " ++ natText max ++ ")", none⟩

/-- Refuses lines that are too long, then those that the tree does not take. -/
def validate (v : GrammarValidator) : Validator := fun line source =>
  if v.maxLength < line.length then .error (tooLong line.length v.maxLength)
  else
    match v.tree.parse line with
    | .ok command => .ok ⟨source, command⟩
    | .error e => .error (.ofSyntaxError e)

end GrammarValidator
end CommandScript
