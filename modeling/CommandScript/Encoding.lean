import CommandScript.Grammar.Encoding
import CommandScript.Procedure

/-! JSON forms of sources, identifiers and expanded procedures. -/
namespace CommandScript

namespace Source

def toJson (s : Source) : Json :=
  .object [("name", .string s.name), ("permission_level", .nat s.level.toNat)]

private def readName : Json → Option String
  | .string s => some s
  | _ => none

private def readLevel : Json → Option UInt8
  | .number (.integer n) => if 0 ≤ n ∧ n < 256 then some (.ofNat n.toNat) else none
  | _ => none

/-- Reads the JSON form of a source: an object in which both members stand once, or an array of
their values. -/
def ofJson? : Json → Option Source
  | .object members =>
    let named (name : String) := (members.filter (·.1 == name)).map (·.2)
    match named "name", named "permission_level" with
    | [name], [level] => do return ⟨← readName name, ← readLevel level⟩
    | _, _ => none
  | .array [name, level] => do return ⟨← readName name, ← readLevel level⟩
  | _ => none

/-- Reads a source from a JSON text. Its other members are not looked at. -/
def parse (s : String) : Option Source := (Json.parseWithin .outermost s).bind ofJson?

end Source

namespace Identifier

def toJson (id : Identifier) : Json := .string id.text

def ofJson? : Json → Option Identifier
  | .string s => (parse s).toOption
  | _ => none

end Identifier

def Action.toJson (a : Action) : Json :=
  .object [("source", a.source.toJson), ("command", a.command.toJson)]

def ExpandedProcedure.toJson (e : ExpandedProcedure) : Json :=
  .object [("id", e.id.toJson), ("actions", .array (e.actions.map Action.toJson))]

end CommandScript
