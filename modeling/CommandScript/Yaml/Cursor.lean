/-! Positions in YAML texts, and classes of characters. -/
namespace CommandScript.Yaml

/-- Line breaks. Carriage returns and next-line characters have been replaced by line feeds. -/
def isBreak (c : Char) : Bool := c == '\n' || c == '\u2028' || c == '\u2029'

def isBlank (c : Char) : Bool := c == ' ' || c == '\t'

/-- Characters between words. -/
def isGap (c : Char) : Bool := isBlank c || isBreak c

/-- Whether a place holds a gap or the end of the text. -/
def endsWord : Option Char → Bool
  | some c => isGap c
  | none => true

/-- Characters of names: those of anchors, directives and tag handles. -/
def isNameChar (c : Char) : Bool := c.isAlphanum || c == '_' || c == '-'

/-- The byte order mark, which may begin a line and has no meaning there. -/
def orderMark : Char := '\ufeff'

/-- Characters that a YAML text may hold. -/
def isAllowed (c : Char) : Bool :=
  let n := c.toNat
  n == 0x09 || n == 0x0a || n == 0x0d || (0x20 ≤ n && n ≤ 0x7e) || n == 0x85 ||
    (0xa0 ≤ n && n ≤ 0xfffd) || 0x10000 ≤ n

/-- Replaces each carriage return, with a line feed after it or not, and each next-line character by
a line feed. -/
def normalizeBreaks : List Char → List Char
  | [] => []
  | '\r' :: '\n' :: cs => '\n' :: normalizeBreaks cs
  | c :: cs => (if c == '\r' || c == '\u0085' then '\n' else c) :: normalizeBreaks cs

/-- What is left of a text, with the position at which that starts. -/
structure Cursor where
  rest : List Char
  /-- The number of bytes before. -/
  index : Nat
  line : Nat
  column : Nat

namespace Cursor

def start (cs : List Char) : Cursor := ⟨cs, 0, 0, 0⟩

def peek? (c : Cursor) : Option Char := c.rest.head?

def ahead? (c : Cursor) (n : Nat) : Option Char := c.rest[n]?

def next (c : Cursor) : Cursor :=
  match c.rest with
  | [] => c
  | x :: rest =>
    if isBreak x then ⟨rest, c.index + x.utf8Size, c.line + 1, 0⟩
    else ⟨rest, c.index + x.utf8Size, c.line, c.column + 1⟩

def skip : Nat → Cursor → Cursor
  | 0, c => c
  | n + 1, c => skip n c.next

def skipBlanks (c : Cursor) : Cursor := c.skip (c.rest.takeWhile isBlank).length

/-- The position behind the line, of which nothing but blanks and a comment may be left. -/
def endLine? (c : Cursor) : Option Cursor :=
  let c := c.skipBlanks
  match c.rest with
  | [] => some c
  | x :: _ =>
    if x == '#' then some (c.skip ((c.rest.takeWhile (!isBreak ·)).length + 1))
    else if isBreak x then some c.next
    else none

/-- Whether a document marker, `---` or `...`, stands here. -/
def atMarker (c : Cursor) (mark : Char) : Bool :=
  c.column == 0 && c.rest.take 3 == [mark, mark, mark] && endsWord (c.ahead? 3)

def atDocumentMarker (c : Cursor) : Bool := c.atMarker '-' || c.atMarker '.'

/-- Skips blanks, comments and line breaks in front of a token, and an order mark at the start of a
line. A tab is skipped where no key may begin. A line break in a block allows a key to begin. -/
def toToken (flow keyAllowed : Bool) (c : Cursor) : Cursor × Bool :=
  let rec go (comment allowed : Bool) (index line column : Nat) : List Char → Cursor × Bool
    | [] => (⟨[], index, line, column⟩, allowed)
    | x :: xs =>
      let next := index + x.utf8Size
      if isBreak x then go false (allowed || !flow) next (line + 1) 0 xs
      else if comment || x == ' ' || (x == '\t' && (flow || !allowed)) ||
          (x == orderMark && column == 0) then
        go comment allowed next line (column + 1) xs
      else if x == '#' then go true allowed next line (column + 1) xs
      else (⟨x :: xs, index, line, column⟩, allowed)
  go false keyAllowed c.index c.line c.column c.rest

end Cursor

/-- What a gap inside a scalar stands for: blanks for themselves, one line break for a space, and
more line breaks for all but the first. -/
def foldGap (gap : List Char) : List Char :=
  match gap.filter isBreak with
  | [] => gap
  | ['\n'] => [' ']
  | '\n' :: breaks => breaks
  | breaks => breaks

end CommandScript.Yaml
