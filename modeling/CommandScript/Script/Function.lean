import CommandScript.Files.Folder
import CommandScript.Procedure
import CommandScript.Script.Lines
import CommandScript.Text.Escaped

/-! Procedures from the text of function files. -/
namespace CommandScript.Script
open Template Numeric Text

/-- Why a function file gives no procedure. -/
inductive LoadError
  | unreadable (path : String) (cause : FileError)
  | invalidIdentifier (path : String) (cause : IdentifierError)
  | invalidCommand (id : Identifier) (line : Nat) (cause : Rejection)
  | expansion (cause : ExpansionError)
deriving DecidableEq

def LoadError.message : LoadError → String
  | unreadable path cause =>
    "Failed to read " ++ Escaped.quote path ++ ": " ++ cause.message
  | invalidIdentifier path cause =>
    "Invalid function path " ++ Escaped.quote path ++ ": " ++ cause.message
  | invalidCommand id line cause =>
    id.text ++ " line " ++ natText line ++ ": " ++ cause.message
  | expansion cause => cause.message

/-- Replaces the index of a refused action by the number of its line. -/
def LoadError.ofExpansion (lines : List Line) : ExpansionError → LoadError
  | .invalidExpansion id index cause =>
    .invalidCommand id ((lines[index]?.map Line.number).getD 0) cause
  | e => .expansion e

/-- The text of a line, if it has neither placeholders nor errors. -/
def literalText? (line : Line) : Option String :=
  let r := scan line.text
  if r.error.isNone && (r.segments.filterMap Segment.name?).isEmpty then
    some (Segment.renderAll (fun _ => none) r.segments)
  else none

/-- Has the lines without placeholders accepted. -/
def checkLiterals (id : Identifier) (ctx : Context) : List Line → Except LoadError Unit
  | [] => .ok ()
  | line :: rest =>
    match literalText? line with
    | none => checkLiterals id ctx rest
    | some text =>
      match ctx.validate text ctx.source with
      | .error cause => .error (.invalidCommand id line.number cause)
      | .ok _ => checkLiterals id ctx rest

/-- The procedure that the text of a function file makes up. The lines that stay as they are have
to be accepted now, also those of a template. -/
def parseFunction (id : Identifier) (source : String) (ctx : Context) :
    Except LoadError Procedure := do
  let lines := logicalLines source
  let p ← (Procedure.ofLines id lines ctx).mapError (LoadError.ofExpansion lines)
  if p.isTemplate then checkLiterals id ctx lines
  return p

/-- The procedure that a function file makes up, as far as its text is to be read. -/
def loadText (id : Identifier) (path : String) (text : Except FileError String) (ctx : Context) :
    Except LoadError Procedure := do
  parseFunction id (← text.mapError (.unreadable path)) ctx

/-- The procedure that the file at a path makes up. -/
def loadPath (fs : Folder) (cwd path : String) (id : Identifier) (ctx : Context) :
    Except LoadError Procedure :=
  loadText id path (fs.readText cwd path) ctx

end CommandScript.Script
