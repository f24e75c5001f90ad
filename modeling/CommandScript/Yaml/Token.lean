import CommandScript.Yaml.Scalar
import CommandScript.Yaml.Tag

/-! Tokens of YAML texts. Indentation becomes tokens of its own, and a key is marked as soon as the
colon behind it is found. -/
namespace CommandScript.Yaml

inductive Token
  | directive (d : Directive)
  | documentStart
  | documentEnd
  | openBlockSequence
  | openBlockMapping
  | closeBlock
  | openFlowSequence
  | closeFlowSequence
  | openFlowMapping
  | closeFlowMapping
  | blockEntry
  | flowEntry
  | key
  | value
  | anchor (name : String)
  | reference (name : String)
  | tag (name : TagName)
  | scalar (style : ScalarStyle) (text : String)
deriving DecidableEq

/-- A token that may turn out to begin a key. -/
structure KeyCandidate where
  /-- The number of tokens before it. -/
  number : Nat
  /-- The number of bytes before it. -/
  index : Nat
  line : Nat
  column : Nat
  /-- Whether nothing but a key may stand there. -/
  required : Bool

/-- How far a text has been scanned. -/
structure Scanner where
  cursor : Cursor
  /-- The tokens so far, last first. -/
  tokens : List Token
  /-- The columns of the open blocks, innermost first. -/
  indents : List Nat
  keyAllowed : Bool
  /-- The candidate in the block context. -/
  candidate : Option KeyCandidate
  /-- The candidates in the open flow collections, innermost first. -/
  flow : List (Option KeyCandidate)

namespace Scanner

def start (cs : List Char) : Scanner := ⟨.start cs, [], [], true, none, []⟩

def inFlow (s : Scanner) : Bool := !s.flow.isEmpty

def indent? (s : Scanner) : Option Nat := s.indents.head?

def emit (s : Scanner) (t : Token) : Scanner := { s with tokens := t :: s.tokens }

def skip (s : Scanner) (n : Nat) : Scanner := { s with cursor := s.cursor.skip n }

def insertAt (s : Scanner) (number : Nat) (t : Token) : Scanner :=
  let later := s.tokens.length - number
  { s with tokens := s.tokens.take later ++ t :: s.tokens.drop later }

def currentCandidate (s : Scanner) : Option KeyCandidate :=
  match s.flow with
  | [] => s.candidate
  | k :: _ => k

def setCandidate (s : Scanner) (k : Option KeyCandidate) : Scanner :=
  match s.flow with
  | [] => { s with candidate := k }
  | _ :: rest => { s with flow := k :: rest }

/-- Gives the candidate up, which may not be required. -/
def dropCandidate (s : Scanner) : Option Scanner :=
  if s.currentCandidate.any KeyCandidate.required then none else some (s.setCandidate none)

/-- Makes the next token a candidate where a key may begin. -/
def saveCandidate (s : Scanner) : Option Scanner :=
  if s.keyAllowed then do
    let required := !s.inFlow && s.indent? == some s.cursor.column
    let s ← s.dropCandidate
    return s.setCandidate (some ⟨s.tokens.length, s.cursor.index, s.cursor.line, s.cursor.column,
      required⟩)
  else some s

/-- The greatest length of a key, in bytes. -/
def maxKeyLength : Nat := 1024

/-- The candidate, if it may still be a key: keys are short and end on their first line. -/
def liveCandidate (s : Scanner) : Option (Option KeyCandidate) :=
  match s.currentCandidate with
  | none => some none
  | some k =>
    if k.line < s.cursor.line || k.index + maxKeyLength < s.cursor.index then
      if k.required then none else some none
    else some (some k)

/-- Closes the blocks that are indented more than a column; all of them if there is none. -/
def closeBlocks (s : Scanner) (column : Option Nat) : Scanner :=
  if s.inFlow then s
  else
    let closed := s.indents.takeWhile fun i => column.all (· < i)
    { s with
      tokens := List.replicate closed.length .closeBlock ++ s.tokens
      indents := s.indents.drop closed.length }

/-- Opens a block at a column that is greater than that of the block around it. -/
def openBlock (s : Scanner) (column number : Nat) (t : Token) : Scanner :=
  if !s.inFlow && s.indent?.all (· < column) then
    { s.insertAt number t with indents := column :: s.indents }
  else s

def marker (s : Scanner) (t : Token) : Option Scanner := do
  let s ← (s.closeBlocks none).dropCandidate
  return { (s.emit t).skip 3 with keyAllowed := false }

def directive (s : Scanner) : Option Scanner := do
  let s ← (s.closeBlocks none).dropCandidate
  let (d, cursor) ← readDirective s.cursor
  return { s.emit (.directive d) with cursor, keyAllowed := false }

def openFlow (s : Scanner) (t : Token) : Option Scanner := do
  let s ← s.saveCandidate
  return { (s.emit t).skip 1 with flow := none :: s.flow, keyAllowed := true }

def closeFlow (s : Scanner) (t : Token) : Option Scanner := do
  let s ← s.dropCandidate
  return { (s.emit t).skip 1 with flow := s.flow.tail, keyAllowed := false }

def flowEntry (s : Scanner) : Option Scanner := do
  let s ← s.dropCandidate
  return { (s.emit .flowEntry).skip 1 with keyAllowed := true }

def blockEntry (s : Scanner) : Option Scanner :=
  if !s.inFlow && !s.keyAllowed then none
  else do
    let s ← (s.openBlock s.cursor.column s.tokens.length .openBlockSequence).dropCandidate
    return { (s.emit .blockEntry).skip 1 with keyAllowed := true }

def key (s : Scanner) : Option Scanner :=
  if !s.inFlow && !s.keyAllowed then none
  else do
    let s ← (s.openBlock s.cursor.column s.tokens.length .openBlockMapping).dropCandidate
    return { (s.emit .key).skip 1 with keyAllowed := !s.inFlow }

def value (s : Scanner) : Option Scanner := do
  match ← s.liveCandidate with
  | some k =>
    let s := (s.insertAt k.number .key).openBlock k.column k.number .openBlockMapping
    return { ((s.setCandidate none).emit .value).skip 1 with keyAllowed := false }
  | none =>
    if !s.inFlow && !s.keyAllowed then none
    else
      let s := s.openBlock s.cursor.column s.tokens.length .openBlockMapping
      return { ((s.setCandidate none).emit .value).skip 1 with keyAllowed := !s.inFlow }

def anchor (s : Scanner) (token : String → Token) : Option Scanner := do
  let s ← s.saveCandidate
  let name := s.cursor.rest.tail.takeWhile isNameChar
  let after := s.cursor.ahead? (name.length + 1)
  if name.isEmpty || !(endsWord after || after.any fun c => "?:,]\x7d%@\x60".toList.contains c) then
    none
  else
    return { (s.emit (token (String.ofList name))).skip (name.length + 1) with keyAllowed := false }

def tag (s : Scanner) : Option Scanner := do
  let s ← s.saveCandidate
  let (name, cursor) ← readTag s.cursor
  if endsWord cursor.peek? || (s.inFlow && cursor.peek? == some ',') then
    return { s.emit (.tag name) with cursor, keyAllowed := false }
  else none

def block (s : Scanner) (style : ScalarStyle) : Option Scanner := do
  let s ← s.dropCandidate
  let (text, cursor) ← readBlock s.indent? s.cursor
  return { s.emit (.scalar style (String.ofList text)) with cursor, keyAllowed := true }

def quoted (s : Scanner) : Option Scanner := do
  let s ← s.saveCandidate
  let (text, cursor) ← readQuoted s.cursor
  return { s.emit (.scalar .quoted (String.ofList text)) with cursor, keyAllowed := false }

/-- Scans a plain scalar. A line break behind it allows a key to begin. -/
def plain (s : Scanner) : Option Scanner := do
  let s ← s.saveCandidate
  let indent := match s.indent? with
    | some n => n + 1
    | none => 0
  let r ← readPlain s.inFlow indent s.cursor
  return { s.emit (.scalar .plain (String.ofList r.text)) with
    cursor := r.cursor, keyAllowed := r.broken }

/-- Characters that begin no plain scalar. -/
def isIndicator (c : Char) : Bool := "-?:,[]\x7b\x7d#&*!|>'\"%@\x60".toList.contains c

/-- Scans the token that begins with the character `c`. -/
def step (s : Scanner) (c : Char) : Option Scanner :=
  let after := s.cursor.ahead? 1
  if s.cursor.column == 0 && c == '%' then s.directive
  else if s.cursor.atMarker '-' then s.marker .documentStart
  else if s.cursor.atMarker '.' then s.marker .documentEnd
  else if c == '[' then s.openFlow .openFlowSequence
  else if c == '\x7b' then s.openFlow .openFlowMapping
  else if c == ']' then s.closeFlow .closeFlowSequence
  else if c == '\x7d' then s.closeFlow .closeFlowMapping
  else if c == ',' then s.flowEntry
  else if c == '-' && endsWord after then s.blockEntry
  else if c == '?' && (s.inFlow || endsWord after) then s.key
  else if c == ':' && (s.inFlow || endsWord after) then s.value
  else if c == '*' then s.anchor .reference
  else if c == '&' then s.anchor .anchor
  else if c == '!' then s.tag
  else if c == '|' && !s.inFlow then s.block .literal
  else if c == '>' && !s.inFlow then s.block .folded
  else if c == '\'' || c == '"' then s.quoted
  else if (!isGap c && !isIndicator c) || (c == '-' && !after.any isBlank) ||
      (!s.inFlow && (c == '?' || c == ':') && !endsWord after) then s.plain
  else none

/-- Scans all tokens. Every token takes a character. -/
def run (s : Scanner) : Option (List Token) :=
  let (cursor, keyAllowed) := s.cursor.toToken s.inFlow s.keyAllowed
  let s' := { s with cursor, keyAllowed }
  match cursor.rest with
  | [] => do
    let s' ← (s'.closeBlocks none).dropCandidate
    return s'.tokens.reverse
  | c :: _ =>
    match (s'.closeBlocks (some cursor.column)).step c with
    | none => none
    | some next =>
      if _ : next.cursor.rest.length < s.cursor.rest.length then run next else none
termination_by s.cursor.rest.length

end Scanner

/-- The tokens of a text. -/
def tokens? (text : String) : Option (List Token) :=
  let cs := text.toList
  if cs.all isAllowed then (Scanner.start (normalizeBreaks cs)).run else none

end CommandScript.Yaml
