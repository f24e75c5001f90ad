import CommandScript.Text.Bytes
import CommandScript.Numeric.Layout

/-! Rejected command lines. -/
namespace CommandScript.Grammar
open Numeric

/-- Why a command line is rejected. -/
inductive Fault
  | emptyCommand
  | unknownCommand
  | incorrectArgument
  | expectedArgument (description : String)
  | invalidInteger (token : String)
  | invalidFloat (token : String)
  | invalidBool (token : String)
  | invalidResource (token : String)
  | integerTooLow (value min : Int64)
  | integerTooHigh (value max : Int64)
  | floatTooLow (value min : Binary64)
  | floatTooHigh (value max : Binary64)
  | invalidQuotedString
  | expectedWhitespace
  | trailingData
  | incompleteCommand
deriving DecidableEq

def Fault.message : Fault → String
  | emptyCommand => "Empty command"
  | unknownCommand => "Unknown command"
  | incorrectArgument => "Incorrect argument for command"
  | expectedArgument description => "Expected " ++ description
  | invalidInteger token => "Invalid integer '" ++ token ++ "'"
  | invalidFloat token => "Invalid float '" ++ token ++ "'"
  | invalidBool token => "Invalid boolean '" ++ token ++ "', expected 'true' or 'false'"
  | invalidResource token => "Invalid resource location '" ++ token ++ "'"
  | integerTooLow value min =>
    "Integer must not be less than " ++ intText min.toInt ++ ", found " ++ intText value.toInt
  | integerTooHigh value max =>
    "Integer must not be more than " ++ intText max.toInt ++ ", found " ++ intText value.toInt
  | floatTooLow value min =>
    "Float must not be less than " ++ min.text .plain ++ ", found " ++ value.text .plain
  | floatTooHigh value max =>
    "Float must not be more than " ++ max.text .plain ++ ", found " ++ value.text .plain
  | invalidQuotedString => "Invalid quoted string"
  | expectedWhitespace => "Expected whitespace to end one argument, but found trailing data"
  | trailingData => "Incorrect argument for command: trailing data"
  | incompleteCommand => "Unknown or incomplete command"

/-- A rejected command line, and the byte offset at which it was rejected. -/
structure SyntaxError where
  fault : Fault
  input : String
  cursor : Nat
deriving DecidableEq

namespace SyntaxError

/-- How many characters before the cursor a message shows. -/
def contextLength : Nat := 10

/-- A text, or dots and its last characters if it is longer than a context. -/
def shorten (cs : List Char) : List Char :=
  if contextLength < cs.length then '.' :: '.' :: '.' :: cs.drop (cs.length - contextLength)
  else cs

/-- The last characters before the cursor; the whole input takes the place of the text before a
cursor inside a character. -/
def context (e : SyntaxError) : String :=
  let input := e.input.toList
  let before := (Text.takeBytes? (min e.cursor (Text.byteSize input)) input).getD input
  String.ofList (shorten before)

def message (e : SyntaxError) : String :=
  e.fault.message ++ " at position " ++ natText e.cursor ++ ": " ++ e.context ++ "<--[HERE]"

end SyntaxError
end CommandScript.Grammar
