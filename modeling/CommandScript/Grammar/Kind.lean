import CommandScript.Numeric.Layout

/-! Kinds of command arguments. -/
namespace CommandScript.Grammar
open Numeric

/-- Optional inclusive bounds of a number. -/
structure Bounds (α : Type) where
  min : Option α
  max : Option α
deriving DecidableEq

def Bounds.free {α : Type} : Bounds α := ⟨none, none⟩

/-- What an argument of a command may be. -/
inductive Kind
  /-- A run of characters other than the space. -/
  | word
  /-- A word, or a double-quoted string. -/
  | string
  /-- All that is left of the line. -/
  | greedy
  | integer (bounds : Bounds Int64)
  | float (bounds : Bounds Binary64)
  | bool
  /-- A path, with or without a namespace. -/
  | resource
deriving DecidableEq

/-- The written form of bounds, empty where there is none. -/
def Bounds.chars {α : Type} (write : α → List Char) (b : Bounds α) : List Char :=
  let side (x : Option α) : List Char := (x.map write).getD []
  if b.min.isNone && b.max.isNone then []
  else '(' :: (side b.min ++ '.' :: '.' :: (side b.max ++ [')']))

/-- Agreement of bounds under an equality of numbers. -/
def Bounds.same {α : Type} (eq : α → α → Bool) (a b : Bounds α) : Bool :=
  let side : Option α → Option α → Bool
    | some x, some y => eq x y
    | none, none => true
    | _, _ => false
  side a.min b.min && side a.max b.max

namespace Kind

/-- The keyword of a kind in usage lines. -/
def keyword : Kind → String
  | word => "word"
  | string => "string"
  | greedy => "greedy"
  | integer _ => "integer"
  | float _ => "float"
  | bool => "bool"
  | resource => "resource"

/-- What an error message calls the missing argument. -/
def description : Kind → String
  | word => "word"
  | string => "string"
  | greedy => "text"
  | integer _ => "integer"
  | float _ => "float"
  | bool => "boolean"
  | resource => "resource location"

def boundsChars : Kind → List Char
  | integer b => b.chars fun n => intChars n.toInt
  | float b => b.chars (Binary.chars .plain)
  | _ => []

def chars (k : Kind) : List Char := k.keyword.toList ++ k.boundsChars

def text (k : Kind) : String := String.ofList k.chars

/-- Equality of kinds, in which bounds are compared as numbers. -/
def same : Kind → Kind → Bool
  | float a, float b => a.same Binary.numEq b
  | j, k => decide (j = k)

end Kind
end CommandScript.Grammar
