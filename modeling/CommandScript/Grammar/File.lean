import CommandScript.Grammar.Tree
import CommandScript.Yaml.Decode

/-! Grammar files: YAML documents that list usage lines. -/
namespace CommandScript.Grammar

/-- Why a grammar file gives no command tree. -/
inductive GrammarFileError
  | malformed
  | usage (cause : UsageError)
deriving DecidableEq

/-- The text of an error, given the reports on malformed usage lines and on the document. -/
def GrammarFileError.message (lineReport : String → String) (documentReport : String) :
    GrammarFileError → String
  | malformed => "Failed to parse grammar file: " ++ documentReport
  | usage cause => cause.message lineReport

/-- The usage lines that a grammar file lists under `commands`. -/
def usageLines? (document : Yaml) : Option (List String) := do
  let members ← document.members?
  Yaml.field? members "commands" none fun v => do (← v.items?).mapM Yaml.string?

def Tree.ofYaml (text : String) : Except GrammarFileError Tree :=
  match (Yaml.parse text).bind usageLines? with
  | none => .error .malformed
  | some lines => (ofUsages lines).mapError .usage

end CommandScript.Grammar
