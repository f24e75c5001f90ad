import CommandScript.Template.Expansion

/-! Stored procedures. -/
namespace CommandScript

/-- A procedure with placeholders, or one that is ready to run. -/
inductive Procedure
  | template (t : TemplateProcedure)
  | expanded (e : ExpandedProcedure)
deriving DecidableEq

namespace Procedure

def id : Procedure → Identifier
  | template t => t.id
  | expanded e => e.id

def isTemplate : Procedure → Bool
  | template _ => true
  | expanded _ => false

def size : Procedure → Nat
  | template t => t.lines.length
  | expanded e => e.actions.length

/-- The actions of a procedure under given arguments, which only a template looks at. -/
def expand (p : Procedure) (arguments : Option Compound) (ctx : Context) :
    Except ExpansionError ExpandedProcedure :=
  match p with
  | template t => t.expand arguments ctx
  | expanded e => .ok e

/-- The procedure that lines make up. Without placeholders it is expanded at once. -/
def ofLines (id : Identifier) (lines : List Line) (ctx : Context) :
    Except ExpansionError Procedure := do
  let t : TemplateProcedure := ⟨id, lines⟩
  if (← t.requiredNames).isEmpty then
    return expanded (← t.expand none ctx)
  else
    return template t

end Procedure

end CommandScript
