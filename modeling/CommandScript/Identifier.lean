import Std.Data.TreeMap

/-! Identifiers of procedures: a namespace and a path. -/
namespace CommandScript
namespace Identifier

def isSpaceChar (c : Char) : Bool :=
  c.isLower || c.isDigit || c == '_' || c == '-' || c == '.'

def isPathChar (c : Char) : Bool := isSpaceChar c || c == '/'

/-- A text that is not empty and has only characters of a class. -/
def IsOver (p : Char → Bool) (s : String) : Prop := s.toList ≠ [] ∧ ∀ c ∈ s.toList, p c = true

end Identifier

/-- A namespace and a path, each of them not empty and over its alphabet. -/
structure Identifier where
  space : String
  path : String
  space_isOver : Identifier.IsOver Identifier.isSpaceChar space
  path_isOver : Identifier.IsOver Identifier.isPathChar path
deriving DecidableEq

/-- Why a text is no identifier; each error holds the full text, namespace and path. -/
inductive IdentifierError
  | emptyNamespace (id : String)
  | emptyPath (id : String)
  | invalidNamespaceChar (id : String) (ch : Char)
  | invalidPathChar (id : String) (ch : Char)
deriving DecidableEq

def IdentifierError.message : IdentifierError → String
  | emptyNamespace id => "Empty namespace in identifier '" ++ id ++ "'"
  | emptyPath id => "Empty path in identifier '" ++ id ++ "'"
  | invalidNamespaceChar id ch =>
    "Invalid character '" ++ ch.toString ++ "' in namespace of identifier '" ++ id ++ "'"
  | invalidPathChar id ch =>
    "Invalid character '" ++ ch.toString ++ "' in path of identifier '" ++ id ++ "'"

namespace Identifier

/-- The namespace of an identifier that is written without one. -/
def defaultSpace : String := "minecraft"

/-- A namespace and a path with a colon between them. -/
def join (space path : String) : String := space ++ ":" ++ path

def text (id : Identifier) : String := join id.space id.path

/-- The first character of a text that is not in a class. -/
def foreign? (p : Char → Bool) (s : String) : Option Char := s.toList.find? fun c => !p c

theorem isOver_of_foreign?_eq_none {p : Char → Bool} {s : String} (hs : s.toList ≠ [])
    (h : foreign? p s = none) : IsOver p s :=
  ⟨hs, fun c hc => by simpa using List.find?_eq_none.mp h c hc⟩

def ofParts (space path : String) : Except IdentifierError Identifier :=
  let id := join space path
  if hs : space.toList = [] then .error (.emptyNamespace id)
  else if hp : path.toList = [] then .error (.emptyPath id)
  else
    match hs' : foreign? isSpaceChar space, hp' : foreign? isPathChar path with
    | some c, _ => .error (.invalidNamespaceChar id c)
    | none, some c => .error (.invalidPathChar id c)
    | none, none =>
      .ok ⟨space, path, isOver_of_foreign?_eq_none hs hs', isOver_of_foreign?_eq_none hp hp'⟩

/-- Reads an identifier; without a colon the text is a path in the namespace `default`. -/
def parseWithDefault (s default : String) : Except IdentifierError Identifier :=
  match s.toList.dropWhile (· != ':') with
  | _ :: path => ofParts (String.ofList (s.toList.takeWhile (· != ':'))) (String.ofList path)
  | [] => ofParts default s

/-- Reads an identifier, in the usual namespace if it names none. -/
def parse (s : String) : Except IdentifierError Identifier := parseWithDefault s defaultSpace

/-- Identifiers are ordered by namespace, then by path. -/
instance : Ord Identifier := ⟨compareLex (compareOn space) (compareOn path)⟩

instance : Std.TransOrd Identifier :=
  inferInstanceAs (Std.TransCmp (compareLex (compareOn space) (compareOn path)))

instance : Std.LawfulEqOrd Identifier where
  eq_of_compare {a b} h := by
    obtain ⟨h₁, h₂⟩ := compareLex_eq_eq.mp h
    obtain ⟨_, _, _, _⟩ := a
    obtain ⟨_, _, _, _⟩ := b
    simp only [mk.injEq]
    exact ⟨Std.LawfulEqOrd.eq_of_compare h₁, Std.LawfulEqOrd.eq_of_compare h₂⟩

end Identifier
end CommandScript
