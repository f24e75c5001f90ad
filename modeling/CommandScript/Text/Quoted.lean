/-! Double-quoted text in which a backslash precedes each quote and each backslash. -/
namespace CommandScript.Text.Quoted

/-- Whether a character is written with a backslash before it. -/
def isEscaped (c : Char) : Bool := c == '"' || c == '\\'

def encodeBody : List Char → List Char
  | [] => []
  | c :: cs => if isEscaped c then '\\' :: c :: encodeBody cs else c :: encodeBody cs

def encode (cs : List Char) : List Char := '"' :: encodeBody cs ++ ['"']

/-- Reads up to the closing quote, and gives the text and what follows the quote. -/
def decodeBody : List Char → Option (List Char × List Char)
  | [] => none
  | '"' :: rest => some ([], rest)
  | '\\' :: rest =>
    match rest with
    | [] => none
    | c :: rest => if isEscaped c then (decodeBody rest).map fun r => (c :: r.1, r.2) else none
  | c :: rest => (decodeBody rest).map fun r => (c :: r.1, r.2)

/-- Reads a quoted form at the start of a text, and gives the text in it and what follows. -/
def decode : List Char → Option (List Char × List Char)
  | '"' :: rest => decodeBody rest
  | _ => none

theorem decodeBody_encodeBody (s rest : List Char) :
    decodeBody (encodeBody s ++ '"' :: rest) = some (s, rest) := by
  induction s with
  | nil => rfl
  | cons c s ih =>
    by_cases hq : c = '"'
    · subst hq; simp [encodeBody, isEscaped, decodeBody, ih]
    by_cases hb : c = '\\'
    · subst hb; simp [encodeBody, isEscaped, decodeBody, ih]
    simp [encodeBody, isEscaped, hq, hb, decodeBody, ih]

/-- Every quoted form reads back, whatever follows it. -/
theorem decode_encode (s rest : List Char) : decode (encode s ++ rest) = some (s, rest) := by
  simpa [encode, decode] using decodeBody_encodeBody s rest

end CommandScript.Text.Quoted
