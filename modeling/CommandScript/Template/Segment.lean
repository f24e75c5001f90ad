import CommandScript.Numeric.Digits
import CommandScript.Text.Bytes

/-! Placeholders in text: `$name$` is a placeholder and `$$` a dollar sign. -/
namespace CommandScript.Template
open Text Numeric

/-- A piece of text, or a placeholder. -/
inductive Segment
  | literal (text : String)
  | placeholder (name : String)
deriving DecidableEq

/-- A dollar sign that begins no placeholder, at a byte offset. -/
inductive MarkerError
  | unterminated (offset : Nat)
  | invalidCharacter (offset : Nat) (ch : Char)
deriving DecidableEq

def MarkerError.message : MarkerError → String
  | unterminated offset => "unterminated placeholder starting at byte " ++ natText offset
  | invalidCharacter offset ch =>
    "invalid character '" ++ ch.toString ++ "' in placeholder starting at byte " ++ natText offset

def isNameChar (c : Char) : Bool := c.isAlphanum || c == '_'

/-- Whether a character is text wherever it stands. -/
def isPlain (c : Char) : Bool := c != '$'

/-- The segments of a text up to the first error in it, and that error. -/
structure Scan where
  segments : List Segment
  error : Option MarkerError
deriving DecidableEq

namespace Scan

def done : Scan := ⟨[], none⟩

def stop (e : MarkerError) : Scan := ⟨[], some e⟩

def cons (s : Segment) (r : Scan) : Scan := { r with segments := s :: r.segments }

def toExcept (r : Scan) : Except MarkerError (List Segment) :=
  match r.error with
  | some e => .error e
  | none => .ok r.segments

end Scan

theorem length_dropWhile_le {α : Type} (p : α → Bool) (xs : List α) :
    (xs.dropWhile p).length ≤ xs.length :=
  (List.dropWhile_suffix p).length_le

/-- Scans a text that stands at a byte offset. -/
def scanFrom (offset : Nat) (cs : List Char) : Scan :=
  match cs with
  | [] => .done
  | c :: rest =>
    if isPlain c then
      let plain := c :: rest.takeWhile isPlain
      .cons (.literal (String.ofList plain))
        (scanFrom (offset + byteSize plain) (rest.dropWhile isPlain))
    else if rest.head? = some '$' then
      .cons (.literal "$") (scanFrom (offset + 2) rest.tail)
    else
      let name := rest.takeWhile isNameChar
      match h : rest.dropWhile isNameChar with
      | [] => .stop (.unterminated offset)
      | c :: after =>
        if c = '$' then
          .cons (.placeholder (String.ofList name)) (scanFrom (offset + byteSize name + 2) after)
        else .stop (.invalidCharacter offset c)
termination_by cs.length
decreasing_by
  · have := length_dropWhile_le isPlain rest
    simp only [List.length_cons]
    omega
  · simp only [List.length_cons, List.length_tail]
    omega
  · have := length_dropWhile_le isNameChar rest
    rw [h] at this
    simp only [List.length_cons] at this ⊢
    omega

/-- Scans a text for placeholders. -/
def scan (text : String) : Scan := scanFrom 0 text.toList

namespace Segment

def name? : Segment → Option String
  | literal _ => none
  | placeholder name => some name

/-- The names of the placeholders, in the order in which they first come. -/
def names (segments : List Segment) : List String := (segments.filterMap name?).eraseDups

/-- The text that a segment stands for; a placeholder without a value stands for itself. -/
def render (value? : String → Option String) : Segment → String
  | literal text => text
  | placeholder name => (value? name).getD ("$" ++ name ++ "$")

def renderAll (value? : String → Option String) (segments : List Segment) : String :=
  String.join (segments.map (render value?))

end Segment

/-- The names of the placeholders of a text, and the error that ends the text, if any. -/
def placeholderNames (text : String) : List String × Option MarkerError :=
  let r := scan text
  (Segment.names r.segments, r.error)

def hasPlaceholders (text : String) : Except MarkerError Bool :=
  match placeholderNames text with
  | (_, some e) => .error e
  | (names, none) => .ok !names.isEmpty

end CommandScript.Template
