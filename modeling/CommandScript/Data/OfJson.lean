import CommandScript.Data.Value
import CommandScript.Json.Reader

/-! Compounds of arguments from JSON objects. -/
namespace CommandScript
open Numeric

/-- Why a JSON text gives no arguments. -/
inductive ArgumentsError
  | malformed
  | notAnObject
  /-- A null, and the way to it from the root. -/
  | nullValue (path : String)
deriving DecidableEq

/-- The text of an error, with the report on a text that is no JSON if one is given; its wording is
left open. -/
def ArgumentsError.message (e : ArgumentsError) (report : String := "") : String :=
  match e with
  | malformed => "Invalid arguments JSON: " ++ report
  | notAnObject => "Arguments must be a JSON object"
  | nullValue path => "Null is not a valid argument value (at '" ++ path ++ "')"

namespace Value

/-- The narrowest of the types of an integer that holds it, from 32 bits on. -/
def ofInteger (n : Int) : Value :=
  if Int32.minValue.toInt ≤ n ∧ n ≤ Int32.maxValue.toInt then .int (.ofInt n)
  else if Int64.minValue.toInt ≤ n ∧ n ≤ Int64.maxValue.toInt then .long (.ofInt n)
  else .double (.ofInt .double n)

mutual

/-- The value that a JSON value at a path stands for. -/
def ofJson (path : String) : Json → Except ArgumentsError Value
  | .null => .error (.nullValue path)
  | .bool b => .ok (.byte (if b then 1 else 0))
  | .number (.integer n) => .ok (ofInteger n)
  | .number (.double x) => .ok (.double x)
  | .string s => .ok (.string s)
  | .array items => (ofItems path 0 items).map .list
  | .object members => (ofMembers path members .empty).map Compound.toValue

/-- The values of the items of an array from an index on. -/
def ofItems (path : String) (index : Nat) : List Json → Except ArgumentsError (List Value)
  | [] => .ok []
  | v :: rest => do
    let v ← ofJson (path ++ "[" ++ natText index ++ "]") v
    let rest ← ofItems path (index + 1) rest
    return v :: rest

def ofMembers (path : String) : List (String × Json) → Compound → Except ArgumentsError Compound
  | [], c => .ok c
  | (name, v) :: rest, c => do
    let v ← ofJson (path ++ "." ++ name) v
    ofMembers path rest (c.insert name v)

end
end Value

namespace Compound

def ofJson (v : Json) : Except ArgumentsError Compound := do
  match ← Value.ofJson "$" v with
  | .compound entries => .ok ⟨entries⟩
  | _ => .error .notAnObject

/-- Reads arguments from a JSON text; names come in ascending order. -/
def parse (s : String) : Except ArgumentsError Compound :=
  match Json.parse s with
  | some v => ofJson v.sorted
  | none => .error .malformed

end Compound
end CommandScript
