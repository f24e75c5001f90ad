import CommandScript.Yaml.Scalar
import CommandScript.Yaml.Tag

/-! Trees of YAML documents, with the numbers that anchors have been given. -/
namespace CommandScript.Yaml

/-- A node of a document. Scalars are kept as text; plain ones may be read as something else. -/
inductive Node
  | scalar (style : ScalarStyle) (tag : Option Tag) (text : String)
  | sequence (items : List Node)
  | mapping (members : List (Node × Node))
  /-- A node that an anchor gives a number to. -/
  | anchored (number : Nat) (node : Node)
  /-- Stands for the node with a number. -/
  | reference (number : Nat)
deriving Inhabited

namespace Node

def absent : Node := .scalar .plain none ""

mutual

/-- Puts the nodes that have numbers in front of others, in the reverse of the order in which they
begin. -/
def collect : Node → List (Nat × Node) → List (Nat × Node)
  | anchored number v, found => collect v ((number, v) :: found)
  | sequence items, found => collectItems items found
  | mapping members, found => collectMembers members found
  | scalar _ _ _, found | reference _, found => found

def collectItems : List Node → List (Nat × Node) → List (Nat × Node)
  | [], found => found
  | v :: rest, found => collectItems rest (collect v found)

def collectMembers : List (Node × Node) → List (Nat × Node) → List (Nat × Node)
  | [], found => found
  | (k, v) :: rest, found => collectMembers rest (collect v (collect k found))

end

end Node
end CommandScript.Yaml
