import CommandScript.Grammar.Argument

/-! Command lines that the grammar has accepted. -/
namespace CommandScript.Grammar

/-- One element of a command line: its name in the usage, and what it was read as. -/
structure Node where
  name : String
  value : Argument
deriving DecidableEq

/-- A command line, and its elements in order. -/
structure Command where
  text : String
  nodes : List Node
deriving DecidableEq

namespace Command

def root? (c : Command) : Option String := c.nodes.head?.map Node.name

/-- The value of the first argument with a given name. -/
def argument? (c : Command) (name : String) : Option Argument :=
  (c.nodes.find? fun n => n.name == name && !n.value.isLiteral).map Node.value

end Command
end CommandScript.Grammar
