import CommandScript.Json.Token
import CommandScript.Numeric.Digits
import CommandScript.Yaml.Cursor

/-! Tags of YAML texts, and the directives that give meanings to their handles. -/
namespace CommandScript.Yaml

/-- A tag, as bytes: what its escapes stand for need not be a text. -/
abbrev Tag := List UInt8

namespace Tag

def ofText (s : String) : Tag := s.toList.map fun c => .ofNat c.toNat

/-- The tag that leaves it to a reader what a scalar is. -/
def unspecific : Tag := ofText "!"

def standard : String := "tag:yaml.org,2002:"

def null : Tag := ofText (standard ++ "null")

def integer : Tag := ofText (standard ++ "int")

end Tag

/-- A tag as it is written: a suffix behind a handle, or without a handle all of it. -/
structure TagName where
  handle : Option String
  suffix : Tag
deriving DecidableEq

def defaultHandles : List (String × Tag) :=
  [("!", Tag.unspecific), ("!!", Tag.ofText Tag.standard)]

/-- Characters of tags. In some places commas and brackets are among them. -/
def isTagChar (brackets : Bool) (c : Char) : Bool :=
  isNameChar c || ";/?:@&=+$.!~*'()%".toList.contains c || (brackets && ",[]".toList.contains c)

/-- How many bytes come after the first one of a character. -/
def trailingBytes? (first : Nat) : Option Nat :=
  if first < 0x80 then some 0
  else if 0xc0 ≤ first && first < 0xe0 then some 1
  else if 0xe0 ≤ first && first < 0xf0 then some 2
  else if 0xf0 ≤ first && first < 0xf8 then some 3
  else none

/-- The bytes of the characters of a tag. An escape gives a byte; the `pending` bytes that the
character before still lacks have to come first, as escapes. -/
def unescape (pending : Nat) : List Char → Option Tag
  | [] => if pending = 0 then some [] else none
  | '%' :: a :: b :: cs => do
    let byte := (← Json.hexDigit? a) * 16 + (← Json.hexDigit? b)
    let pending ←
      if pending = 0 then trailingBytes? byte
      else if 0x80 ≤ byte && byte < 0xc0 then some (pending - 1)
      else none
    return .ofNat byte :: (← unescape pending cs)
  | c :: cs =>
    if c = '%' || pending ≠ 0 then none else do return .ofNat c.toNat :: (← unescape 0 cs)

/-- Reads characters of a tag, of which there has to be one. A zero byte ends what they stand
for. -/
def readTagText (brackets : Bool) (c : Cursor) : Option (Tag × Cursor) := do
  let text := c.rest.takeWhile (isTagChar brackets)
  if text.isEmpty then none
  else return ((← unescape 0 text).takeWhile (· ≠ 0), c.skip text.length)

/-- The handle at the start of a text: two exclamation marks, with a name or nothing in between. -/
def readHandle (c : Cursor) : Option (String × Cursor) :=
  let name := c.rest.tail.takeWhile isNameChar
  if c.peek? == some '!' && c.ahead? (name.length + 1) == some '!' then
    some (String.ofList ('!' :: name ++ ['!']), c.skip (name.length + 2))
  else none

/-- Reads a tag: one in angle brackets is written out, and one without a handle of its own has the
handle of a single exclamation mark. -/
def readTag (c : Cursor) : Option (TagName × Cursor) := do
  if c.ahead? 1 == some '<' then
    let (text, c) ← readTagText true (c.skip 2)
    if c.peek? == some '>' then some (⟨none, text⟩, c.next) else none
  else
    match readHandle c with
    | some (handle, c) =>
      let (suffix, c) ← readTagText false c
      return (⟨some handle, suffix⟩, c)
    | none =>
      let (suffix, c) ←
        if (c.ahead? 1).any (isTagChar false) then readTagText false c.next else some ([], c.next)
      return (if suffix.isEmpty then ⟨none, Tag.unspecific⟩ else ⟨some "!", suffix⟩, c)

/-! ### Directives -/

inductive Directive
  /-- The version of the language is one that is understood. -/
  | version
  | handle (name : String) (meaning : Tag)
deriving DecidableEq

def readVersionNumber (c : Cursor) : Option (Nat × Cursor) :=
  let digits := c.rest.takeWhile Char.isDigit
  if digits.isEmpty || 9 < digits.length then none
  else some (Numeric.ofDigits digits, c.skip digits.length)

/-- Reads a version, which is 1.1 or 1.2. -/
def readVersion (c : Cursor) : Option Cursor := do
  let (major, c) ← readVersionNumber c
  if c.peek? == some '.' then
    let (minor, c) ← readVersionNumber c.next
    if major == 1 && (minor == 1 || minor == 2) then some c else none
  else none

def readMeaning (c : Cursor) : Option (Directive × Cursor) := do
  let (name, c) ←
    match readHandle c with
    | some r => some r
    | none => if c.peek? == some '!' then some ("!", c.next) else none
  if c.peek?.any isBlank then
    let (meaning, c) ← readTagText true c.skipBlanks
    if endsWord c.peek? then some (.handle name meaning, c) else none
  else none

/-- Reads a directive, up to the start of the next line. -/
def readDirective (c : Cursor) : Option (Directive × Cursor) := do
  let name := c.rest.tail.takeWhile isNameChar
  let c := c.skip (name.length + 1)
  if endsWord c.peek? then
    let (d, c) ←
      match String.ofList name with
      | "YAML" => (readVersion c.skipBlanks).map fun c => (Directive.version, c)
      | "TAG" => readMeaning c.skipBlanks
      | _ => none
    return (d, ← c.endLine?)
  else none

end CommandScript.Yaml
