import CommandScript.Grammar.Command
import CommandScript.Json.Printer
import CommandScript.Json.Reader

/-! JSON forms of kinds and commands. -/
namespace CommandScript.Grammar
open Numeric

/-- An object that tells by `tag` which of several forms it has. -/
private def tagged (tag name : String) (members : List (String × Json)) : Json :=
  .object ((tag, .string name) :: members)

/-- The JSON form of a double. -/
def doubleJson (x : Binary64) : Json := .number (.double x)

namespace Argument

def form : Argument → String
  | literal _ => "literal"
  | word _ => "word"
  | string _ => "string"
  | integer _ => "integer"
  | float _ => "float"
  | bool _ => "bool"
  | resource _ _ => "resource"

def content : Argument → Json
  | literal s | word s | string s => .string s
  | integer n => .int64 n
  | float x => doubleJson x
  | bool b => .bool b
  | resource space path =>
    .object [("namespace", Json.orNull .string space), ("path", .string path)]

def toJson (a : Argument) : Json := tagged "kind" a.form [("value", a.content)]

end Argument

def Node.toJson (n : Node) : Json := .object [("name", .string n.name), ("value", n.value.toJson)]

def Command.toJson (c : Command) : Json :=
  .object [("text", .string c.text), ("nodes", .array (c.nodes.map Node.toJson))]

namespace Kind

private def boundsJson {α : Type} (write : α → Json) (b : Bounds α) : List (String × Json) :=
  [("min", Json.orNull write b.min), ("max", Json.orNull write b.max)]

def toJson (k : Kind) : Json :=
  tagged "type" k.keyword <|
    match k with
    | integer b => boundsJson .int64 b
    | float b => boundsJson doubleJson b
    | _ => []

private def readOr {α : Type} (read : Json → Option α) : Json → Option (Option α)
  | .null => some none
  | v => (read v).map some

private def readInt64 : Json → Option Int64
  | .number (.integer n) => int64? n
  | _ => none

private def readDouble : Json → Option Binary64
  | .number (.integer n) => some (.ofInt .double n)
  | .number (.double x) => some x
  | _ => none

private def membersNamed (name : String) (members : List (String × Json)) : List Json :=
  (members.filter (·.1 == name)).map (·.2)

/-- The value of a bound, which may be missing but not be given twice. -/
private def readBound {α : Type} (read : Json → Option α) (name : String)
    (members : List (String × Json)) : Option (Option α) :=
  match membersNamed name members with
  | [] => some none
  | [v] => readOr read v
  | _ => none

private def readBounds {α : Type} (read : Json → Option α) (members : List (String × Json)) :
    Option (Bounds α) := do
  return ⟨← readBound read "min" members, ← readBound read "max" members⟩

private def readPair {α : Type} (read : Json → Option α) : List Json → Option (Bounds α)
  | [min, max] => do return ⟨← readOr read min, ← readOr read max⟩
  | _ => none

/-- The kind with a given keyword, by readers for the bounds that it may have. -/
private def ofKeyword (integers : Option (Bounds Int64)) (floats : Option (Bounds Binary64))
    (free : Bool) : String → Option Kind
  | "integer" => integers.map integer
  | "float" => floats.map float
  | "word" => if free then some word else none
  | "string" => if free then some string else none
  | "greedy" => if free then some greedy else none
  | "bool" => if free then some bool else none
  | "resource" => if free then some resource else none
  | _ => none

/-- Reads the JSON form of a kind. Members without meaning are passed over; an array with the
keyword and both bounds is read too. -/
def ofJson? : Json → Option Kind
  | .object members =>
    match membersNamed "type" members with
    | [.string keyword] =>
      ofKeyword (readBounds readInt64 members) (readBounds readDouble members) true keyword
    | _ => none
  | .array (.string keyword :: bounds) =>
    ofKeyword (readPair readInt64 bounds) (readPair readDouble bounds) bounds.isEmpty keyword
  | _ => none

end Kind
end CommandScript.Grammar
