import CommandScript.Action
import CommandScript.Data.Snbt
import CommandScript.Identifier
import CommandScript.Template.Segment

/-! Expansion of templates: placeholders are replaced by arguments, and each command line that
results has to be accepted. -/
namespace CommandScript
open Template Numeric

/-- Why a template does not expand. An index is that of an action, from zero on. -/
inductive ExpansionError
  | missingArguments (procedure : Identifier) (names : List String)
  | malformedPlaceholder (procedure : Identifier) (index : Nat) (reason : MarkerError)
  | invalidExpansion (procedure : Identifier) (index : Nat) (reason : Rejection)
deriving DecidableEq

namespace ExpansionError

def procedure : ExpansionError → Identifier
  | missingArguments p _ | malformedPlaceholder p _ _ | invalidExpansion p _ _ => p

def message : ExpansionError → String
  | missingArguments p names =>
    "Missing macro arguments for " ++ p.text ++ ": " ++ ", ".intercalate names
  | malformedPlaceholder p index reason =>
    "Malformed placeholder in " ++ p.text ++ ", action " ++ natText index ++ ": " ++ reason.message
  | invalidExpansion p index reason =>
    "Invalid expansion of " ++ p.text ++ ", action " ++ natText index ++ ": " ++ reason.message

end ExpansionError

namespace Template

/-- The texts of the arguments that a template asks for. -/
structure Resolution where
  values : List (String × String)
deriving DecidableEq

namespace Resolution

def get? (r : Resolution) (name : String) : Option String := r.values.lookup name

def size (r : Resolution) : Nat := r.values.length

end Resolution

/-- Looks all required names up, or gives those that are missing. No compound is an empty one. -/
def resolve (procedure : Identifier) (required : List String) (arguments : Option Compound) :
    Except ExpansionError Resolution :=
  let given := arguments.getD .empty
  let missing := required.filter fun name => !given.contains name
  if missing.isEmpty then
    .ok ⟨required.eraseDups.filterMap fun name => (given.get? name).map fun v => (name, v.text)⟩
  else .error (.missingArguments procedure missing)

end Template

/-- The text of an action, and the number of the line on which it starts. -/
structure Line where
  text : String
  number : Nat
deriving DecidableEq

def Line.ofText (text : String) : Line := ⟨text, 0⟩

/-- A procedure that has not been expanded. -/
structure TemplateProcedure where
  id : Identifier
  lines : List Line
deriving DecidableEq

/-- A procedure whose actions have all been accepted. -/
structure ExpandedProcedure where
  id : Identifier
  actions : List Action
deriving DecidableEq

def ExpandedProcedure.commands (e : ExpandedProcedure) : List String := e.actions.map Action.text

namespace TemplateProcedure

/-- The segments of each of the lines from an index on. -/
def segmentsFrom (id : Identifier) : Nat → List Line → Except ExpansionError (List (List Segment))
  | _, [] => .ok []
  | index, line :: rest =>
    match (scan line.text).toExcept with
    | .error reason => .error (.malformedPlaceholder id index reason)
    | .ok segments => (segmentsFrom id (index + 1) rest).map (segments :: ·)

/-- The names that the lines from an index on ask for, those of each line without repetition. -/
def namesFrom (id : Identifier) : Nat → List Line → Except ExpansionError (List String)
  | _, [] => .ok []
  | index, line :: rest =>
    match placeholderNames line.text with
    | (_, some reason) => .error (.malformedPlaceholder id index reason)
    | (names, none) => (namesFrom id (index + 1) rest).map (names ++ ·)

/-- The names that a template asks for, in the order in which they first come. -/
def requiredNames (t : TemplateProcedure) : Except ExpansionError (List String) :=
  (namesFrom t.id 0 t.lines).map List.eraseDups

/-- Has each of the command lines from an index on accepted. -/
def acceptFrom (id : Identifier) (ctx : Context) :
    Nat → List String → Except ExpansionError (List Action)
  | _, [] => .ok []
  | index, line :: rest =>
    match ctx.validate line ctx.source with
    | .error reason => .error (.invalidExpansion id index reason)
    | .ok action => (acceptFrom id ctx (index + 1) rest).map (action :: ·)

/-- Replaces the placeholders and has the command lines accepted. Placeholders are looked at in all
lines before the arguments are, and those before any line is accepted. -/
def expand (t : TemplateProcedure) (arguments : Option Compound) (ctx : Context) :
    Except ExpansionError ExpandedProcedure := do
  let segments ← segmentsFrom t.id 0 t.lines
  let values ← resolve t.id (Segment.names segments.flatten) arguments
  let actions ← acceptFrom t.id ctx 0 (segments.map (Segment.renderAll values.get?))
  return ⟨t.id, actions⟩

end TemplateProcedure
end CommandScript
