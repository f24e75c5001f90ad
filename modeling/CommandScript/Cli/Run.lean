import CommandScript.Cli.Options
import CommandScript.Data.OfJson
import CommandScript.Encoding

/-! Carrying out the tasks of the command line on a snapshot of the file system. -/
namespace CommandScript.Cli
open Grammar Numeric Script Text

/-- What a run leaves behind. -/
structure Outcome where
  exitCode : Nat
  output : String
  errors : String
deriving DecidableEq

/-- The wordings that are left open: the reports on a usage line, on the text of arguments, and on
the grammar file or the configuration file at a path that cannot be read; and what is printed for
the words of a command line that asks for help or that leads to no task. -/
structure Reports where
  usage : String → String
  arguments : String → String
  grammar : String → String
  config : String → String
  help : List String → String
  misuse : List String → String

/-- Why a task fails. -/
inductive TaskError
  | config (e : ConfigError)
  | identifier (e : IdentifierError)
  | arguments (text : String) (e : ArgumentsError)
  | invocation (e : InvocationError)
  | rejected (e : Rejection)
deriving DecidableEq

def expansionCauses : ExpansionError → List String
  | .invalidExpansion _ _ reason => [reason.message]
  | _ => []

def loadCauses : LoadError → List String
  | .unreadable _ cause => [cause.message]
  | .invalidIdentifier _ cause => [cause.message]
  | .invalidCommand _ _ cause => [cause.message]
  | .expansion cause => expansionCauses cause

/-- What a grammar file at a path has wrong. A report on the document comes as a part of the text
and as a reason behind it. -/
def grammarCauses (reports : Reports) (path : String) (e : GrammarFileError) : List String :=
  let report := reports.grammar path
  e.message reports.usage report :: match e with
    | .malformed => [report]
    | .usage _ => []

def configCauses (reports : Reports) : ConfigError → List String
  | .malformed => []
  | .malformedFile path => [reports.config path]
  | .unreadableFile _ cause | .unreadableGrammar _ cause => [cause.message]
  | .badGrammar path cause => grammarCauses reports path cause
  | .unlistable _ cause => cause.message :: loadCauses cause

/-- What the text of arguments has wrong, with the reason behind it as for grammar files. -/
def argumentsCauses (reports : Reports) (text : String) (e : ArgumentsError) : List String :=
  let report := reports.arguments text
  e.message report :: match e with
    | .malformed => [report]
    | _ => []

/-- What failed and the reasons behind it, the first reason last. -/
def TaskError.messages (reports : Reports) : TaskError → List String
  | config e => e.message :: configCauses reports e
  | identifier e => [e.message]
  | arguments text e => "Invalid --args" :: argumentsCauses reports text e
  | invocation (.expansion e) => e.message :: expansionCauses e
  | invocation e => [e.message]
  | rejected e => [e.message]

def TaskError.text (reports : Reports) (e : TaskError) : String :=
  ": ".intercalate (e.messages reports)

/-- The written form of a value with the name of its kind. -/
def argumentText : Argument → String
  | .literal s => "Literal(" ++ Escaped.quote s ++ ")"
  | .word s => "Word(" ++ Escaped.quote s ++ ")"
  | .string s => "String(" ++ Escaped.quote s ++ ")"
  | .integer n => "Integer(" ++ intText n.toInt ++ ")"
  | .float x => "Float(" ++ x.text .debug ++ ")"
  | .bool b => "Bool(" ++ (if b then "true" else "false") ++ ")"
  | .resource space path =>
    let space := match space with
      | some s => "Some(" ++ Escaped.quote s ++ ")"
      | none => "None"
    "Resource \x7b namespace: " ++ space ++ ", path: " ++ Escaped.quote path ++ " \x7d"

def unlines (ls : List String) : String := String.join (ls.map (· ++ "\n"))

def listText (r : Registry) : OutputFormat → List String
  | .json =>
    [(Json.array (r.toList.map fun e => .object [("actions", .nat e.2.size),
      ("id", e.1.toJson), ("template", .bool e.2.isTemplate)])).indented]
  | .pretty =>
    (natText r.size ++ " procedure(s)") :: r.toList.map fun e =>
      "  " ++ e.1.text ++ " [" ++ (if e.2.isTemplate then "template" else "expanded") ++ "] " ++
        natText e.2.size ++ " action(s)"

def checkText (r : Registry) (report : Report) : OutputFormat → List String
  | .json =>
    let failures := report.failures.map fun f =>
      Json.object [("error", .string f.2.message), ("path", .string f.1)]
    [(Json.object [("failures", .array failures), ("loaded", .nat report.loaded),
      ("procedures", .nat r.size)]).indented]
  | .pretty =>
    let failures := report.failures.map fun f => "FAIL " ++ f.1 ++ ": " ++ f.2.message
    let summary :=
      if report.isClean then "OK " ++ natText report.loaded ++ " procedure(s) loaded"
      else natText report.loaded ++ " loaded, " ++ natText report.failures.length ++ " failed"
    failures ++ [summary]

def expandText (e : ExpandedProcedure) (source : Source) : OutputFormat → List String
  | .json => [e.toJson.indented]
  | .pretty =>
    ("Expanded " ++ e.id.text ++ " as " ++ source.name) :: e.commands.map ("  " ++ ·)

def parseText (c : Command) : OutputFormat → List String
  | .json => [c.toJson.indented]
  | .pretty =>
    ("OK " ++ c.text) :: c.nodes.map fun n => "  " ++ n.name ++ " = " ++ argumentText n.value

/-- Carries a task out, and gives the exit code and the lines of the output. -/
def perform (fs : Folder) (cwd : String) (c : Config) (v : GrammarValidator)
    (format : OutputFormat) : Task → Except TaskError (Nat × List String)
  | .parse command => do
    let action ← (v.validate command c.loadSource).mapError .rejected
    return (0, parseText action.command format)
  | .list => do
    let (registry, _) ← (c.registry fs cwd ⟨c.loadSource, v.validate⟩).mapError .config
    return (0, listText registry format)
  | .check => do
    let (registry, report) ← (c.registry fs cwd ⟨c.loadSource, v.validate⟩).mapError .config
    return (if report.isClean then 0 else 1, checkText registry report format)
  | .expand id arguments source => do
    let (registry, _) ← (c.registry fs cwd ⟨c.loadSource, v.validate⟩).mapError .config
    let source : Source := match source with
      | some name => ⟨name, c.loadSource.level⟩
      | none => c.loadSource
    let id ← (c.identifier id).mapError .identifier
    let arguments ← match arguments with
      | some text => ((Compound.parse text).map some).mapError (.arguments text)
      | none => .ok none
    let expanded ← (registry.invoke id arguments ⟨source, v.validate⟩).mapError .invocation
    return (0, expandText expanded source format)

def Request.configure (r : Request) (fs : Folder) (cwd : String) (env : Environment) :
    Except ConfigError Config := do
  let c ← match r.config with
    | some path => (Config.load fs cwd path).map (·.override env)
    | none => Config.ofEnvironment fs cwd env
  return { c with functionsDir := r.functionsDir.getD c.functionsDir }

/-- The paths that a request leads to, as far as a snapshot tells: the directory of the functions in
front of the files. -/
def Request.paths (r : Request) (fs : Folder) (cwd : String) (env : Environment) : List String :=
  let configFile := r.config.getD (Path.join cwd Config.defaultFile)
  match r.configure fs cwd env with
  | .ok c => c.functionsDir :: configFile :: c.grammarFile.toList
  | .error _ => [configFile]

def Request.perform (r : Request) (fs : Folder) (cwd : String) (env : Environment) :
    Except TaskError (Nat × List String) := do
  let c ← (r.configure fs cwd env).mapError .config
  let v ← (c.validator fs cwd).mapError .config
  Cli.perform fs cwd c v r.format r.task

/-- Runs the program on a snapshot of the file system. -/
def runWith (reports : Reports) (fs : Folder) (cwd : String) (env : Environment)
    (args : List String) : Outcome :=
  match Request.parse args env with
  | .error .help => ⟨0, reports.help args, ""⟩
  | .error .misuse => ⟨2, "", reports.misuse args⟩
  | .ok r =>
    match r.perform fs cwd env with
    | .ok (code, lines) => ⟨code, unlines lines, ""⟩
    | .error e =>
      match r.format with
      | .json => ⟨1, unlines [(Json.object [("error", .string (e.text reports))]).compact], ""⟩
      | .pretty => ⟨1, "", unlines ["error: " ++ e.text reports]⟩

def usage : String :=
  "Usage: cmdfn [-c FILE] [--functions-dir DIR] [-o json|pretty] COMMAND\n\n" ++
  "Commands:\n" ++
  "  list                                   List loaded procedures\n" ++
  "  check                                  Load every function file and report failures\n" ++
  "  expand ID [-a JSON] [--source NAME]    Expand a procedure into concrete commands\n" ++
  "  parse COMMAND                          Parse one command against the grammar\n"

/-- Reports that say no more than that something cannot be read. -/
def Reports.plain : Reports where
  usage _ := "malformed usage"
  arguments _ := "malformed JSON"
  grammar _ := "malformed YAML"
  config _ := "malformed YAML"
  help _ := Cli.usage
  misuse _ := Cli.usage

/-- Runs the program with plain reports. -/
def run : Folder → String → Environment → List String → Outcome := runWith .plain

end CommandScript.Cli
