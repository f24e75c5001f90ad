import CommandScript.Numeric.Binary

/-! JSON values. -/
namespace CommandScript
open Numeric

/-- A JSON number, an integer where it is written and kept as one. -/
inductive Json.Number
  | integer (value : Int)
  | double (value : Binary64)
deriving DecidableEq

/-- A JSON value, with the members of an object in the order of the document. -/
inductive Json
  | null
  | bool (value : Bool)
  | number (value : Json.Number)
  | string (value : String)
  | array (items : List Json)
  | object (members : List (String × Json))
deriving Inhabited

namespace Json

def nat (n : Nat) : Json := .number (.integer n)

def int64 (n : Int64) : Json := .number (.integer n.toInt)

def orNull {α : Type} (write : α → Json) : Option α → Json
  | some x => write x
  | none => null

/-- Puts a member in its place among members in ascending order of their names; it takes the place
of one with the same name. -/
def insertMember (name : String) (value : Json) : List (String × Json) → List (String × Json)
  | [] => [(name, value)]
  | (name', value') :: rest =>
    match compare name name' with
    | .lt => (name, value) :: (name', value') :: rest
    | .eq => (name, value) :: rest
    | .gt => (name', value') :: insertMember name value rest

mutual

/-- The same value with the members of all objects in ascending order of their names; of members
with one name the last is kept. -/
def sorted : Json → Json
  | array items => array (sortedItems items)
  | object members => object (sortedMembers members [])
  | v => v

def sortedItems : List Json → List Json
  | [] => []
  | v :: rest => v.sorted :: sortedItems rest

def sortedMembers : List (String × Json) → List (String × Json) → List (String × Json)
  | [], done => done
  | (name, v) :: rest, done => sortedMembers rest (insertMember name v.sorted done)

end
end Json
end CommandScript
