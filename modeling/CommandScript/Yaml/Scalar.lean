import CommandScript.Json.Token
import CommandScript.Yaml.Cursor

/-! Scalars of YAML texts: plain, quoted, and block scalars. -/
namespace CommandScript.Yaml

/-- How a scalar is written. -/
inductive ScalarStyle
  | plain
  | quoted
  | literal
  | folded
deriving DecidableEq

/-! ### Plain scalars -/

/-- Characters that delimit the items of flow collections. -/
def isFlowIndicator (c : Char) : Bool :=
  c == ',' || c == '[' || c == ']' || c == '\x7b' || c == '\x7d'

/-- The word of a plain scalar at the start of a text. A colon ends it in front of a gap, and in a
flow collection the delimiters do. -/
def plainWord (flow : Bool) : List Char → List Char
  | [] => []
  | c :: cs =>
    if isGap c || (c == ':' && endsWord cs.head?) || (flow && isFlowIndicator c) then []
    else c :: plainWord flow cs

/-- Whether a word holds a colon in front of a question mark, or has one before a delimiter. -/
def hasBadColon : List Char → Option Char → Bool
  | [], _ => false
  | [c], after => c == ':' && after.any isFlowIndicator
  | c :: d :: cs, after => (c == ':' && d == '?') || hasBadColon (d :: cs) after

/-- Whether a gap has a tab in the indentation of a line. -/
def breaksIndent (indent : Nat) (gap : List Char) : Bool :=
  ((gap.splitOnP isBreak).drop 1).any fun blanks =>
    blanks.contains '\t' && decide ((blanks.takeWhile (· != '\t')).length < indent)

/-- A plain scalar that has been read, with the gap behind it. -/
structure PlainScalar where
  text : List Char
  cursor : Cursor
  /-- Whether the gap has a line break. -/
  broken : Bool

/-- Reads the words of a plain scalar from the second on, and the gap behind the last one. Every
word takes a character. -/
def plainRest (flow : Bool) (indent : Nat) : Nat → Cursor → Option PlainScalar
  | 0, c => some ⟨[], c, false⟩
  | fuel + 1, c =>
    let gap := c.rest.takeWhile isGap
    let c' := c.skip gap.length
    let word :=
      if gap.isEmpty || c'.atDocumentMarker || c'.peek? == some '#' ||
          (!flow && c'.column < indent) then []
      else plainWord flow c'.rest
    if breaksIndent indent gap then none
    else if word.isEmpty then some ⟨[], c', gap.any isBreak⟩
    else if flow && hasBadColon word (c'.ahead? word.length) then none
    else (plainRest flow indent fuel (c'.skip word.length)).map fun r =>
      { r with text := foldGap gap ++ word ++ r.text }

/-- Reads a plain scalar, whose later lines are indented by at least `indent`. -/
def readPlain (flow : Bool) (indent : Nat) (c : Cursor) : Option PlainScalar :=
  let word := plainWord flow c.rest
  if flow && hasBadColon word (c.ahead? word.length) then none
  else (plainRest flow indent c.rest.length (c.skip word.length)).map fun r =>
    { r with text := word ++ r.text }

/-! ### Quoted scalars -/

/-- The text before the quote that ends a single-quoted scalar. -/
def singleQuoted : List Char → Option (List Char)
  | [] => none
  | '\'' :: '\'' :: cs => (singleQuoted cs).map fun s => '\'' :: '\'' :: s
  | '\'' :: _ => some []
  | c :: cs => (singleQuoted cs).map (c :: ·)

/-- The text before the quote that ends a double-quoted scalar. -/
def doubleQuoted : List Char → Option (List Char)
  | [] => none
  | '\\' :: c :: cs => (doubleQuoted cs).map fun s => '\\' :: c :: s
  | '"' :: _ => some []
  | c :: cs => (doubleQuoted cs).map (c :: ·)

/-- A gap whose end has not been read; after an escaped line break its blanks count for nothing. -/
structure OpenGap where
  escaped : Bool
  chars : List Char

namespace OpenGap

def none : OpenGap := ⟨false, []⟩

def push (g : OpenGap) (c : Char) : OpenGap := { g with chars := g.chars ++ [c] }

def text (g : OpenGap) : List Char :=
  if g.escaped then g.chars.filter isBreak else foldGap g.chars

end OpenGap

/-- The value of the text inside single quotes. -/
def decodeSingle (gap : OpenGap) : List Char → List Char
  | [] => gap.text
  | '\'' :: '\'' :: cs => gap.text ++ '\'' :: decodeSingle .none cs
  | c :: cs =>
    if isGap c then decodeSingle (gap.push c) cs else gap.text ++ c :: decodeSingle .none cs

/-- The character that a letter behind a backslash stands for. -/
def escape? : Char → Option Char
  | '0' => some '\x00'
  | 'a' => some '\x07'
  | 'b' => some '\x08'
  | 't' | '\t' => some '\t'
  | 'n' => some '\n'
  | 'v' => some '\x0b'
  | 'f' => some '\x0c'
  | 'r' => some '\r'
  | 'e' => some '\x1b'
  | ' ' => some ' '
  | '"' => some '"'
  | '/' => some '/'
  | '\\' => some '\\'
  | 'N' => some '\u0085'
  | '_' => some '\u00a0'
  | 'L' => some '\u2028'
  | 'P' => some '\u2029'
  | _ => none

/-- How many hexadecimal digits come after a letter behind a backslash. -/
def hexDigits? : Char → Option Nat
  | 'x' => some 2
  | 'u' => some 4
  | 'U' => some 8
  | _ => none

/-- Where in a double-quoted text a reader is. -/
inductive Place
  | text (gap : OpenGap)
  | escape
  | hex (left value : Nat)

/-- The value of the text inside double quotes. -/
def decodeDouble : Place → List Char → Option (List Char)
  | .text gap, [] => some gap.text
  | _, [] => none
  | .text gap, c :: cs =>
    if isGap c then decodeDouble (.text (gap.push c)) cs
    else if c = '\\' then (decodeDouble .escape cs).map (gap.text ++ ·)
    else (decodeDouble (.text .none) cs).map fun s => gap.text ++ c :: s
  | .escape, c :: cs =>
    if isBreak c then decodeDouble (.text ⟨true, []⟩) cs
    else
      match escape? c, hexDigits? c with
      | some d, _ => (decodeDouble (.text .none) cs).map (d :: ·)
      | none, some n => decodeDouble (.hex n 0) cs
      | none, none => none
  | .hex left value, c :: cs => do
    let value := value * 16 + (← Json.hexDigit? c)
    if left ≤ 1 then
      if value.isValidChar then (decodeDouble (.text .none) cs).map (Char.ofNat value :: ·)
      else none
    else decodeDouble (.hex (left - 1) value) cs

/-- Whether a line after the first one of a text begins with a document marker. -/
def hasMarker (raw : List Char) : Bool :=
  ((raw.splitOnP isBreak).drop 1).any fun line => (Cursor.start line).atDocumentMarker

def readQuoted (c : Cursor) : Option (List Char × Cursor) := do
  let single := c.peek? == some '\''
  let raw ← if single then singleQuoted c.rest.tail else doubleQuoted c.rest.tail
  if hasMarker (c.rest.tail.take (raw.length + 1)) then none
  else
    let text ← if single then some (decodeSingle .none raw) else decodeDouble (.text .none) raw
    return (text, c.skip (raw.length + 2))

/-! ### Block scalars -/

/-- What becomes of the line breaks at the end of a block scalar. -/
inductive Chomping
  | strip
  | clip
  | keep
deriving DecidableEq

/-- The first line of a block scalar. -/
structure BlockHeader where
  chomping : Chomping
  indent : Option Nat

/-- Reads the signs of a block scalar, of each kind at most one. -/
def blockHeader? (signs : List Char) : Option BlockHeader :=
  let chomp? : Char → Option Chomping
    | '+' => some .keep
    | '-' => some .strip
    | _ => none
  let indent? (c : Char) : Option Nat :=
    if c.isDigit && c != '0' then some (c.toNat - '0'.toNat) else none
  match signs with
  | [] => some ⟨.clip, none⟩
  | [a] =>
    match chomp? a, indent? a with
    | some k, _ => some ⟨k, none⟩
    | none, some n => some ⟨.clip, some n⟩
    | none, none => none
  | [a, b] =>
    match chomp? a, indent? b, indent? a, chomp? b with
    | some k, some n, _, _ => some ⟨k, some n⟩
    | _, _, some n, some k => some ⟨k, some n⟩
    | _, _, _, _ => none
  | _ => none

/-- A line, and the break that ends it, if it does not end with the text. -/
structure RawLine where
  text : List Char
  ending : List Char

def rawLines : List Char → List RawLine
  | [] => []
  | c :: cs =>
    if isBreak c then ⟨[], [c]⟩ :: rawLines cs
    else
      match rawLines cs with
      | [] => [⟨[c], []⟩]
      | l :: ls => { l with text := c :: l.text } :: ls

namespace RawLine

def indent (l : RawLine) : Nat := (l.text.takeWhile (· == ' ')).length

def isEmpty (l : RawLine) : Bool := l.text.all (· == ' ')

/-- Whether a line belongs to a block scalar as a line break only. -/
def isBreakOnly (indent : Nat) (l : RawLine) : Bool :=
  l.isEmpty && decide (l.text.length ≤ indent) && !l.ending.isEmpty

def hasBadTab (indent : Nat) (l : RawLine) : Bool :=
  decide (l.indent < indent) && l.text[l.indent]? == some '\t'

end RawLine

/-- The indentation of a block scalar that does not give it: that of its first line that is not
empty, or of an empty one before it if that has more. -/
def findIndent (least : Nat) (lines : List RawLine) : Nat :=
  let first := (lines.dropWhile RawLine.isEmpty).take 1
  ((lines.takeWhile RawLine.isEmpty ++ first).map RawLine.indent).foldl max least

/-- How far a block scalar has been read. -/
structure BlockState where
  text : List Char
  leadingBreak : List Char
  trailingBreaks : List Char
  leadingBlank : Bool

/-- Reads the lines of a block scalar, and gives how many there are. -/
def blockLines (folded : Bool) (indent : Nat) (count : Nat) (s : BlockState) :
    List RawLine → Option (BlockState × Nat)
  | [] => some (s, count)
  | l :: ls =>
    if l.hasBadTab indent then none
    else if l.isBreakOnly indent then
      blockLines folded indent (count + 1)
        { s with trailingBreaks := s.trailingBreaks ++ l.ending } ls
    else if l.indent < indent || l.text.length ≤ indent then some (s, count)
    else
      let line := l.text.drop indent
      let blank := line.head?.any isBlank
      let joined :=
        if folded && s.leadingBreak == ['\n'] && !s.leadingBlank && !blank then
          if s.trailingBreaks.isEmpty then [' '] else []
        else s.leadingBreak
      blockLines folded indent (count + 1)
        ⟨s.text ++ joined ++ s.trailingBreaks ++ line, l.ending, [], blank⟩ ls

/-- Reads a block scalar inside a block with a given indentation, if any. -/
def readBlock (parent : Option Nat) (c : Cursor) : Option (List Char × Cursor) := do
  let folded := c.peek? == some '>'
  let first := c.rest.tail.takeWhile fun x => !isBreak x
  let signs := first.takeWhile fun x => !isBlank x && x != '#'
  let header ← blockHeader? signs
  match (first.drop signs.length).dropWhile isBlank with
  | x :: _ => if x != '#' then none
  | [] => pure ()
  let body := c.skip (first.length + 2)
  let lines := rawLines body.rest
  let least := match parent with
    | some n => n + 1
    | none => 1
  let indent := match header.indent with
    | some n => parent.getD 0 + n
    | none => findIndent least lines
  let empties := lines.takeWhile RawLine.isEmpty
  if header.indent.isNone &&
      ((lines.drop empties.length).head?.any fun l => l.text[l.indent]? == some '\t') then none
  else
    let (s, count) ← blockLines folded indent 0 ⟨[], [], [], false⟩ lines
    let ending := match header.chomping with
      | .strip => []
      | .clip => s.leadingBreak
      | .keep => s.leadingBreak ++ s.trailingBreaks
    let read := (lines.take count).flatMap fun l => l.text ++ l.ending
    return (s.text ++ ending, body.skip read.length)

end CommandScript.Yaml
