import CommandScript.Grammar.Usage

/-! The prefix tree of a list of usage lines. -/
namespace CommandScript.Grammar

/-- An ordered forest, given by its first tree and the trees after that one. A node is executable
if a usage line ends there. -/
inductive Forest
  | nil
  | cons (element : Element) (executable : Bool) (children siblings : Forest)
deriving DecidableEq

namespace Forest

def branch : Element → List Element → Forest
  | e, [] => cons e true nil nil
  | e, e' :: rest => cons e false (branch e' rest) nil

/-- Adds a usage line, sharing the nodes of the elements it has in common with earlier ones. -/
def insert : Forest → Element → List Element → Forest
  | nil, e, rest => branch e rest
  | cons e₀ executable children siblings, e, rest =>
    if e₀.same e then
      match rest with
      | [] => cons e₀ true children siblings
      | e' :: rest => cons e₀ executable (children.insert e' rest) siblings
    else cons e₀ executable children (siblings.insert e rest)

def tops : Forest → List Element
  | nil => []
  | cons e _ _ siblings => e :: siblings.tops

/-- The elements on each path from the top to an executable node. -/
def paths : Forest → List (List Element)
  | nil => []
  | cons e executable children siblings =>
    (if executable then [[e]] else []) ++ children.paths.map (e :: ·) ++ siblings.paths

end Forest

/-- The usage lines registered so far, and their prefix tree. -/
structure Tree where
  roots : Forest
  usages : List String
deriving DecidableEq

namespace Tree

def empty : Tree := ⟨.nil, []⟩

def add (t : Tree) (line : String) (u : Usage) : Tree :=
  ⟨t.roots.insert (.literal u.command) u.parameters, t.usages ++ [line]⟩

def register (t : Tree) (line : String) : Except UsageError Tree :=
  (Usage.parse line).map (t.add line)

def ofUsages (lines : List String) : Except UsageError Tree := lines.foldlM register empty

def commands (t : Tree) : List String := t.roots.tops.map Element.name

def isEmpty (t : Tree) : Bool := t.roots.tops.isEmpty

def builtinUsages : List String := [
  "say <message:greedy>",
  "me <action:greedy>",
  "tell <targets:word> <message:greedy>",
  "kill",
  "kill <targets:word>",
  "function <name:resource>",
  "scoreboard players set <targets:word> <objective:word> <score:integer>",
  "scoreboard players add <targets:word> <objective:word> <score:integer(0..)>",
  "scoreboard players remove <targets:word> <objective:word> <score:integer(0..)>",
  "tp <targets:word> <x:word> <y:word> <z:word>",
  "time set <time:integer(0..)>",
  "time set day",
  "time set night",
  "give <targets:word> <item:resource>",
  "give <targets:word> <item:resource> <count:integer(1..)>",
  "effect give <targets:word> <effect:resource>",
  "effect give <targets:word> <effect:resource> <seconds:integer(0..1000000)>",
  "setblock <x:word> <y:word> <z:word> <block:resource>",
  "data merge storage <target:resource> <nbt:greedy>",
  "tag <targets:word> add <name:word>",
  "tag <targets:word> remove <name:word>"]

def builtin : Tree :=
  match ofUsages builtinUsages with
  | .ok t => t
  | .error _ => empty

end Tree
end CommandScript.Grammar
