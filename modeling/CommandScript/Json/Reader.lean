import CommandScript.Json.Token

/-! Reading JSON texts. -/
namespace CommandScript.Json

/-- An array or object whose end has not been read, with what it holds so far, last first. -/
inductive Open
  | array (items : List Json)
  | object (members : List (String × Json)) (name : String)

/-- What may come next. -/
inductive Expected
  | value
  | firstItem
  | firstMember
  | member (before : List (String × Json))
  | colon (before : List (String × Json)) (name : String)
  | afterValue (v : Json)

/-- What a reader looks at: all of a text, or the outermost value and its parts only. What it does
not look at needs only the form of a value, and what has no value counts as null. -/
inductive Reach
  | all
  | outermost
deriving DecidableEq

/-- How deep arrays and objects may lie in each other. -/
def maxDepth : Nat := 127

def Token.scalar? (r : Reach) : Token → Option Json
  | .null => some .null
  | .bool b => some (.bool b)
  | .number (some n) => some (.number n)
  | .string (some s) => some (.string s)
  | .number none | .string none => if r = .outermost then some .null else none
  | _ => none

/-- The name of a member of an object, in view of what is open around that. -/
def memberName? (r : Reach) (st : List Open) (name : Option String) : Option String :=
  if r = .outermost && !st.isEmpty then some (name.getD "") else name

/-- What may come after a token that begins a value, in view of what is open around that. -/
def beginValue (r : Reach) (st : List Open) (t : Token) : Option Expected :=
  let open? (e : Expected) : Option Expected :=
    if r = .outermost || st.length < maxDepth then some e else none
  match t with
  | .openArray => open? .firstItem
  | .openObject => open? .firstMember
  | t => (t.scalar? r).map .afterValue

/-- One step of reading: the next token, in view of what may come and what is open. -/
def step (r : Reach) (t : Token) : Expected → List Open → Option (Expected × List Open)
  | .value, st => (beginValue r st t).map fun e => (e, enter t st)
  | .firstItem, .array items :: st =>
    match t with
    | .closeArray => some (.afterValue (.array items.reverse), st)
    | t => (beginValue r (.array items :: st) t).map fun e => (e, enter t (.array items :: st))
  | .firstItem, _ => none
  | .firstMember, st =>
    match t with
    | .closeObject => some (.afterValue (.object []), st)
    | .string name => (memberName? r st name).map fun name => (.colon [] name, st)
    | _ => none
  | .member before, st =>
    match t with
    | .string name => (memberName? r st name).map fun name => (.colon before name, st)
    | _ => none
  | .colon before name, st =>
    match t with
    | .colon => some (.value, .object before name :: st)
    | _ => none
  | .afterValue v, .array items :: st =>
    match t with
    | .comma => some (.value, .array (v :: items) :: st)
    | .closeArray => some (.afterValue (.array (v :: items).reverse), st)
    | _ => none
  | .afterValue v, .object members name :: st =>
    match t with
    | .comma => some (.member ((name, v) :: members), st)
    | .closeObject => some (.afterValue (.object ((name, v) :: members).reverse), st)
    | _ => none
  | .afterValue _, [] => none
where
  /-- An array is open from its bracket on; an object from the colon of each of its members on. -/
  enter : Token → List Open → List Open
    | .openArray, st => .array [] :: st
    | _, st => st

def ofTokens (r : Reach) : Expected → List Open → List Token → Option Json
  | .afterValue v, [], [] => some v
  | _, _, [] => none
  | e, st, t :: ts => do
    let (e, st) ← step r t e st
    ofTokens r e st ts

/-- Reads a JSON text as far as a reader looks at it. -/
def parseWithin (r : Reach) (s : String) : Option Json := do
  ofTokens r .value [] (← Token.scan s.toList)

def parse (s : String) : Option Json := parseWithin .all s

end CommandScript.Json
