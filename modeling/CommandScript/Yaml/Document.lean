import CommandScript.Yaml.Node
import CommandScript.Yaml.Token

/-! Reading the tokens of a YAML document as a tree. -/
namespace CommandScript.Yaml

/-- What a reader of tokens has before it. -/
structure Source where
  tokens : List Token
  /-- The numbers that the names of anchors have by now. -/
  anchors : List (String × Nat)
  /-- The meanings of the handles of tags. -/
  handles : List (String × Tag)

abbrev Reader := StateT Source Option

namespace Reader

def peek? : Reader (Option Token) := do return (← get).tokens.head?

def skip : Reader Unit := modify fun s => { s with tokens := s.tokens.tail }

/-- Skips the next token if it is one of several. -/
def skipAny (ts : List Token) : Reader Bool := do
  if (← peek?).any ts.contains then
    skip
    return true
  else return false

def skipIf (t : Token) : Reader Bool := skipAny [t]

def fail {α : Type} : Reader α := fun _ => none

def found {α : Type} : Option α → Reader α
  | some x => return x
  | none => fail

/-- Gives the name of an anchor a number: that of the different names before it. A name that comes
again gets the number of the next new one. -/
def number (name : String) : Reader Nat := do
  let before := (← get).anchors
  modify fun s => { s with anchors := (name, before.length) :: before.filter (·.1 != name) }
  return before.length

def tag (t : TagName) : Reader Tag := do
  match t.handle with
  | none => return t.suffix
  | some name => return (← found ((← get).handles.lookup name)) ++ t.suffix

/-- The properties of a node. -/
structure Properties where
  anchor : Option Nat
  tag : Option Tag

def properties : Reader Properties := do
  let anchor : Reader (Option Nat) := do
    match ← peek? with
    | some (.anchor name) =>
      skip
      return some (← number name)
    | _ => return none
  let tag : Reader (Option Tag) := do
    match ← peek? with
    | some (.tag name) =>
      skip
      return some (← tag name)
    | _ => return none
  match ← anchor with
  | some a => return ⟨some a, ← tag⟩
  | none =>
    let t ← tag
    return ⟨← anchor, t⟩

/-- A node with the number of its anchor, if there is one. -/
def Properties.mark (p : Properties) (v : Node) : Node :=
  match p.anchor with
  | some n => .anchored n v
  | none => v

/-- A scalar with its properties. An unspecific tag on what is written says nothing. -/
def Properties.scalar (p : Properties) (style : ScalarStyle) (text : String) : Node :=
  p.mark (.scalar style (p.tag.filter (· ≠ Tag.unspecific)) text)

/-- Where a node stands, which decides on the tokens that may begin it. -/
inductive Context
  | flow
  | block
  /-- In a block mapping, where a sequence needs no indentation. -/
  | member
deriving DecidableEq

mutual

def node : Nat → Context → Reader Node
  | 0, _ => fail
  | fuel + 1, ctx => do
    if let some (.reference name) ← peek? then
      skip
      return .reference (← found ((← get).anchors.lookup name))
    let p ← properties
    match ← peek? with
    | some (.scalar style text) =>
      skip
      return p.scalar style text
    | some .openFlowSequence =>
      skip
      return p.mark (.sequence (← flowItems fuel true))
    | some .openFlowMapping =>
      skip
      return p.mark (.mapping (← flowMembers fuel true))
    | some .openBlockSequence =>
      if ctx = .flow then fail
      skip
      return p.mark (.sequence (← blockItems fuel true))
    | some .openBlockMapping =>
      if ctx = .flow then fail
      skip
      return p.mark (.mapping (← blockMembers fuel))
    | some .blockEntry =>
      if ctx = .member then return p.mark (.sequence (← blockItems fuel false)) else emptyNode p
    | _ => emptyNode p

/-- Reads a node that is not there; only its properties are. -/
def emptyNode (p : Properties) : Reader Node :=
  if p.anchor.isNone && p.tag.isNone then fail
  else return p.mark (.scalar .plain p.tag "")

/-- Reads a node, or none in front of certain tokens. -/
def nodeUnless : Nat → List Token → Context → Reader Node
  | 0, _, _ => fail
  | fuel + 1, stops, ctx => do
    if (← peek?).any stops.contains then return .absent else node fuel ctx

/-- Reads the items of a block sequence, of which `closed` says whether a token ends it. -/
def blockItems : Nat → Bool → Reader (List Node)
  | 0, _ => fail
  | fuel + 1, closed => do
    if ← skipIf .blockEntry then
      let stops := if closed then [.blockEntry, .closeBlock]
        else [.blockEntry, .key, .value, .closeBlock]
      let v ← nodeUnless fuel stops .block
      return v :: (← blockItems fuel closed)
    else if !closed then return []
    else if ← skipIf .closeBlock then return []
    else fail

def blockMembers : Nat → Reader (List (Node × Node))
  | 0 => fail
  | fuel + 1 => do
    let stops := [.key, .value, .closeBlock]
    if ← skipIf .key then
      let k ← nodeUnless fuel stops .member
      let v ← if ← skipIf .value then nodeUnless fuel stops .member else pure .absent
      return (k, v) :: (← blockMembers fuel)
    else if ← skipIf .closeBlock then return []
    else fail

/-- Reads the items of a flow sequence; all but the first come behind a comma. A colon, a comma or
the end of the sequence behind the sign of a key stands for the key itself. -/
def flowItems : Nat → Bool → Reader (List Node)
  | 0, _ => fail
  | fuel + 1, first => do
    if ← skipIf .closeFlowSequence then return []
    if !first then
      if !(← skipIf .flowEntry) then fail
      if ← skipIf .closeFlowSequence then return []
    let v ←
      if ← skipIf .key then
        let k ←
          if ← skipAny [.value, .flowEntry, .closeFlowSequence] then pure .absent
          else node fuel .flow
        let v ← if ← skipIf .value then nodeUnless fuel [.flowEntry, .closeFlowSequence] .flow
          else pure .absent
        pure (.mapping [(k, v)])
      else node fuel .flow
    return v :: (← flowItems fuel false)

/-- Reads the members of a flow mapping; all but the first come behind a comma. -/
def flowMembers : Nat → Bool → Reader (List (Node × Node))
  | 0, _ => fail
  | fuel + 1, first => do
    if ← skipIf .closeFlowMapping then return []
    if !first then
      if !(← skipIf .flowEntry) then fail
      if ← skipIf .closeFlowMapping then return []
    let m ←
      if ← skipIf .key then
        let k ← nodeUnless fuel [.value, .flowEntry, .closeFlowMapping] .flow
        let v ← if ← skipIf .value then nodeUnless fuel [.flowEntry, .closeFlowMapping] .flow
          else pure .absent
        pure (k, v)
      else do
        let k ← node fuel .flow
        pure (k, .absent)
    return m :: (← flowMembers fuel false)

end

/-- Reads the directives in front of a document and tells whether there are any. The version stands
once at most, and so does each handle. -/
def directives : Nat → Bool → Reader Bool
  | 0, _ => fail
  | fuel + 1, versioned => do
    match ← peek? with
    | some (.directive .version) =>
      if versioned then fail
      skip
      let _ ← directives fuel true
      return true
    | some (.directive (.handle name meaning)) =>
      if ((← get).handles.lookup name).isSome then fail
      skip
      modify fun s => { s with handles := (name, meaning) :: s.handles }
      let _ ← directives fuel versioned
      return true
    | _ => return false

def document (fuel : Nat) : Reader Node := do
  if (← peek?).isNone then return .absent
  let found ← directives fuel false
  modify fun s => { s with handles := s.handles ++ defaultHandles }
  let explicit ← skipIf .documentStart
  if found && !explicit then fail
  let v ←
    if explicit && ((← peek?).isNone || (← peek?) = some .documentStart ||
        (← peek?) = some .documentEnd) then pure .absent
    else node fuel .block
  ends fuel
  if (← peek?).isNone then return v else fail
where
  /-- Skips the signs at the end of a document. -/
  ends : Nat → Reader Unit
    | 0 => return ()
    | fuel + 1 => do if ← skipIf .documentEnd then ends fuel

end Reader

/-- Reads a text that holds one document, or nothing, as its topmost node. -/
def Node.parse (text : String) : Option Node := do
  let tokens ← tokens? text
  let (v, _) ← (Reader.document (4 * tokens.length + 4)).run ⟨tokens, [], []⟩
  return v

end CommandScript.Yaml
