import CommandScript.Numeric.Binary

/-! Typed values, and compounds of them under names. -/
namespace CommandScript
open Numeric

/-- A typed value. -/
inductive Value
  | byte (n : Int8)
  | short (n : Int16)
  | int (n : Int32)
  | long (n : Int64)
  | float (x : Binary32)
  | double (x : Binary64)
  | string (s : String)
  | list (items : List Value)
  | compound (entries : List (String × Value))
deriving Inhabited

/-- Values under names, in the order in which the names came in. -/
structure Compound where
  entries : List (String × Value)
deriving Inhabited

namespace Compound

def empty : Compound := ⟨[]⟩

/-- Puts a value under a name into a list of entries, and gives the value that stood there. -/
def exchangeIn (name : String) (value : Value) :
    List (String × Value) → Option Value × List (String × Value)
  | [] => (none, [(name, value)])
  | (name', value') :: rest =>
    if name' = name then (some value', (name, value) :: rest)
    else
      let (previous, rest) := exchangeIn name value rest
      (previous, (name', value') :: rest)

/-- Puts a value under a name, in the place of the value that stood there, which is given back;
a new name comes last. -/
def exchange (c : Compound) (name : String) (value : Value) : Option Value × Compound :=
  let (previous, entries) := exchangeIn name value c.entries
  (previous, ⟨entries⟩)

def insert (c : Compound) (name : String) (value : Value) : Compound := (c.exchange name value).2

def get? (c : Compound) (name : String) : Option Value := c.entries.lookup name

def contains (c : Compound) (name : String) : Bool := (c.get? name).isSome

def size (c : Compound) : Nat := c.entries.length

def isEmpty (c : Compound) : Bool := c.entries.isEmpty

/-- The names, in the order in which they came in. -/
def names (c : Compound) : List String := c.entries.map Prod.fst

/-- Puts the values of a list in, one after another. -/
def ofList (entries : List (String × Value)) : Compound :=
  entries.foldl (fun c e => c.insert e.1 e.2) empty

def toValue (c : Compound) : Value := .compound c.entries

end Compound
end CommandScript
