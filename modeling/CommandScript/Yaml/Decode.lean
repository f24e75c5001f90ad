import CommandScript.Numeric.Digits
import CommandScript.Yaml.Document

/-! Values of YAML documents, and how they are read as texts, numbers, lists and records. -/
namespace CommandScript
open Numeric

/-- A value of a YAML document: a node, and the nodes that the numbers of anchors stand for. -/
structure Yaml where
  node : Yaml.Node
  anchors : List (Nat × Yaml.Node)

namespace Yaml

/-- Reads a YAML text that holds one document, or nothing. Of the nodes with one number that counts
which begins last, wherever it is referred to. -/
def parse (text : String) : Option Yaml :=
  (Node.parse text).map fun v => ⟨v, v.collect []⟩

/-- The node that a value is, wherever it is written. -/
def content (v : Yaml) : Node :=
  match v.node with
  | .anchored _ n => n
  | .reference number => (v.anchors.lookup number).getD .absent
  | n => n

/-- The text of a scalar, in whatever way it is written. -/
def string? (v : Yaml) : Option String :=
  match v.content with
  | .scalar _ _ text => some text
  | _ => none

def isAbsent (v : Yaml) : Bool :=
  match v.content with
  | .scalar style _ text => style == .plain && text.isEmpty
  | _ => false

/-- The items of a sequence; a value that is not written has none. -/
def items? (v : Yaml) : Option (List Yaml) :=
  match v.content with
  | .sequence items => some (items.map ({ v with node := · }))
  | _ => if v.isAbsent then some [] else none

/-- The members of a mapping whose keys are texts; a value that is not written has none. -/
def members? (v : Yaml) : Option (List (String × Yaml)) :=
  match v.content with
  | .mapping members =>
    members.mapM fun m => (string? { v with node := m.1 }).map (·, { v with node := m.2 })
  | _ => if v.isAbsent then some [] else none

/-- The spellings of null. -/
def isNull (text : String) : Bool :=
  text == "null" || text == "Null" || text == "NULL" || text == "~"

/-- Reads a value that may be null or not written. What has the tag of null has to be null. -/
def optional? {α : Type} (read : Yaml → Option α) (v : Yaml) : Option (Option α) :=
  match v.content with
  | .scalar .plain none text => if text.isEmpty || isNull text then some none else (read v).map some
  | .scalar .plain (some tag) text =>
    if tag = Tag.null then if isNull text then some none else none else (read v).map some
  | _ => (read v).map some

/-- The value of a digit in a base of at most sixteen. -/
def digitIn? (base : Nat) (c : Char) : Option Nat := (Json.hexDigit? c).filter (· < base)

def digits? (base : Nat) (cs : List Char) : Option Nat :=
  if cs.isEmpty then none
  else cs.foldlM (fun n c => (digitIn? base c).map (base * n + ·)) 0

/-- A sign in front of the digits of a base other than ten counts as one. -/
def dropPlus : List Char → List Char
  | '+' :: cs => cs
  | cs => cs

/-- Reads the digits behind an optional sign. Bases other than ten have a mark, and a number in base
ten has no needless zero in front. -/
def readUnsigned (limit : Nat) (cs : List Char) : Option Nat :=
  let plainDigits (base : Nat) (cs : List Char) : Option Nat :=
    (digits? base cs).filter (· < UInt64.size)
  let decimal (cs : List Char) : Option Nat :=
    match cs with
    | '0' :: _ :: _ => none
    | cs => plainDigits 10 cs
  let n? :=
    match dropPlus cs with
    | '0' :: 'x' :: ds => plainDigits 16 ds
    | '0' :: 'o' :: ds => plainDigits 8 ds
    | '0' :: 'b' :: ds => plainDigits 2 ds
    | ds => decimal ds
  n?.filter (· < limit)

/-- The natural number below `limit` that a plain scalar denotes, or a literal one with the tag of
integers. -/
def unsigned? (limit : Nat) (v : Yaml) : Option Nat :=
  match v.content with
  | .scalar .plain _ text => readUnsigned limit text.toList
  | .scalar .literal (some tag) text =>
    if tag = Tag.integer then readUnsigned limit text.toList else none
  | _ => none

/-- Reads the member with a given name, which may not stand twice; `default` if it is missing. -/
def field? {α : Type} (members : List (String × Yaml)) (name : String) (default : Option α)
    (read : Yaml → Option α) : Option α :=
  match members.filter (·.1 == name) with
  | [] => default
  | [m] => read m.2
  | _ => none

end Yaml
end CommandScript
