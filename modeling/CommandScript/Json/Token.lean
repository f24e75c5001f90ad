import CommandScript.Json.Number

/-! Tokens of JSON texts. -/
namespace CommandScript.Json

/-- A lexical unit of a JSON text. A number that is too great and a string that is no text have the
form of such units, but no value. -/
inductive Token
  | openArray
  | closeArray
  | openObject
  | closeObject
  | comma
  | colon
  | null
  | bool (value : Bool)
  | number (value : Option Number)
  | string (value : Option String)

/-- The blanks between tokens. -/
def isBlank (c : Char) : Bool := c == ' ' || c == '\n' || c == '\t' || c == '\r'

def hexDigit? (c : Char) : Option Nat :=
  if c.isDigit then some (c.toNat - '0'.toNat)
  else if 'a' ≤ c && c ≤ 'f' then some (c.toNat - 'a'.toNat + 10)
  else if 'A' ≤ c && c ≤ 'F' then some (c.toNat - 'A'.toNat + 10)
  else none

def hex4? (a b c d : Char) : Option Nat := do
  return ((← hexDigit? a) * 16 + (← hexDigit? b)) * 256 + ((← hexDigit? c) * 16 + (← hexDigit? d))

/-- The character that a letter behind a backslash stands for. -/
def simpleEscape? : Char → Option Char
  | '"' => some '"'
  | '\\' => some '\\'
  | '/' => some '/'
  | 'b' => some '\x08'
  | 'f' => some '\x0c'
  | 'n' => some '\n'
  | 'r' => some '\r'
  | 't' => some '\t'
  | _ => none

/-- Whether a UTF-16 unit is the first of a pair. -/
def isHighUnit (n : Nat) : Bool := 0xd800 ≤ n && n < 0xdc00

/-- Whether a UTF-16 unit is the second of a pair. -/
def isLowUnit (n : Nat) : Bool := 0xdc00 ≤ n && n < 0xe000

/-- The character that a pair of UTF-16 units stands for. -/
def ofUnits (high low : Nat) : Char :=
  Char.ofNat (0x10000 + (high - 0xd800) * 0x400 + (low - 0xdc00))

/-- A piece of a string: a character, or a UTF-16 unit that is given by its number. -/
inductive Piece
  | char (c : Char)
  | unit (n : Nat)

/-- Reads the inside of a string up to the closing quote. -/
def readString : List Char → Option (List Piece × List Char)
  | [] => none
  | '"' :: rest => some ([], rest)
  | '\\' :: 'u' :: a :: b :: c :: d :: rest => do
    let n ← hex4? a b c d
    let (s, rest) ← readString rest
    some (.unit n :: s, rest)
  | '\\' :: e :: rest => do
    let c ← simpleEscape? e
    let (s, rest) ← readString rest
    some (.char c :: s, rest)
  | c :: rest =>
    if c = '\\' || c.toNat < 0x20 then none
    else do
      let (s, rest) ← readString rest
      some (.char c :: s, rest)

/-- The text that pieces make up. The two units of a pair stand together. -/
def joinPieces : List Piece → Option (List Char)
  | [] => some []
  | .char c :: ps => (joinPieces ps).map (c :: ·)
  | .unit n :: ps =>
    if isHighUnit n then
      match ps with
      | .unit low :: ps =>
        if isLowUnit low then (joinPieces ps).map (ofUnits n low :: ·) else none
      | _ => none
    else if isLowUnit n then none
    else (joinPieces ps).map (Char.ofNat n :: ·)

/-- Reads the token at the start of a text that does not start with a blank. -/
def Token.read : List Char → Option (Token × List Char)
  | '[' :: rest => some (openArray, rest)
  | ']' :: rest => some (closeArray, rest)
  | '\x7b' :: rest => some (openObject, rest)
  | '\x7d' :: rest => some (closeObject, rest)
  | ',' :: rest => some (comma, rest)
  | ':' :: rest => some (colon, rest)
  | '"' :: rest =>
    (readString rest).map fun r => (string ((joinPieces r.1).map String.ofList), r.2)
  | 'n' :: 'u' :: 'l' :: 'l' :: rest => some (null, rest)
  | 't' :: 'r' :: 'u' :: 'e' :: rest => some (bool true, rest)
  | 'f' :: 'a' :: 'l' :: 's' :: 'e' :: rest => some (bool false, rest)
  | cs => (readNumeral cs).map fun r => (number r.1.value?, r.2)

/-- The tokens of a text. Every token takes at least one character. -/
def Token.scan (cs : List Char) : Option (List Token) :=
  match cs.dropWhile isBlank with
  | [] => some []
  | c :: cs' =>
    match Token.read (c :: cs') with
    | none => none
    | some (t, rest) =>
      if _ : rest.length < cs.length then (Token.scan rest).map (t :: ·) else none
termination_by cs.length

end CommandScript.Json
