import CommandScript.Procedure

/-! Procedures by identifier. -/
namespace CommandScript

/-- The procedures that have been stored, and the files they came from. -/
structure Registry where
  procedures : Std.TreeMap Identifier Procedure
  sourceFiles : List String

/-- Why an invocation fails. -/
inductive InvocationError
  | unknownProcedure (id : Identifier)
  | expansion (e : ExpansionError)
deriving DecidableEq

def InvocationError.message : InvocationError → String
  | unknownProcedure id => "Unknown procedure: " ++ id.text
  | expansion e => e.message

namespace Registry

def empty : Registry := ⟨∅, []⟩

def get? (r : Registry) (id : Identifier) : Option Procedure := r.procedures[id]?

def contains (r : Registry) (id : Identifier) : Bool := r.procedures.contains id

def size (r : Registry) : Nat := r.procedures.size

def isEmpty (r : Registry) : Bool := r.procedures.isEmpty

def ids (r : Registry) : List Identifier := r.procedures.keys

def toList (r : Registry) : List (Identifier × Procedure) := r.procedures.toList

/-- Stores a procedure under its identifier, and gives the one that stood there. -/
def add (r : Registry) (p : Procedure) : Option Procedure × Registry :=
  (r.get? p.id, { r with procedures := r.procedures.insert p.id p })

def addSourceFile (r : Registry) (path : String) : Registry :=
  { r with sourceFiles := r.sourceFiles ++ [path] }

/-- Takes all procedures of another registry over, in the place of those with the same
identifier. -/
def merge (r other : Registry) : Registry :=
  ⟨other.procedures.foldl (fun m id p => m.insert id p) r.procedures,
    r.sourceFiles ++ other.sourceFiles⟩

def invoke (r : Registry) (id : Identifier) (arguments : Option Compound) (ctx : Context) :
    Except InvocationError ExpandedProcedure :=
  match r.get? id with
  | none => .error (.unknownProcedure id)
  | some p => (p.expand arguments ctx).mapError .expansion

end Registry
end CommandScript
