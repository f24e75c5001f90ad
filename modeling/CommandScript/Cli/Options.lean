import CommandScript.Config

/-! The command line: subcommands, options, and words. -/
namespace CommandScript.Cli

/-- How results are written. -/
inductive OutputFormat
  | json
  | pretty
deriving DecidableEq

/-- What is to be done. -/
inductive Task
  | list
  | check
  | expand (id : String) (arguments source : Option String)
  | parse (command : String)
deriving DecidableEq

/-- A command line that has been understood. -/
structure Request where
  config : Option String
  functionsDir : Option String
  format : OutputFormat
  task : Task
deriving DecidableEq

/-- Why a command line leads to no task: help was asked for, or it is malformed. -/
inductive Stop
  | help
  | misuse
deriving DecidableEq

/-- The options that have a value. -/
inductive Flag
  | config
  | functionsDir
  | format
  | arguments
  | source
deriving DecidableEq

/-- The subcommands. -/
inductive Verb
  | list
  | check
  | expand
  | parse
deriving DecidableEq

def Verb.ofName? : String → Option Verb
  | "list" => some list
  | "check" => some check
  | "expand" => some expand
  | "parse" => some parse
  | _ => none

/-- How many words a subcommand takes that are no options. -/
def Verb.places : Verb → Nat
  | list | check => 0
  | expand | parse => 1

/-- A part of the command line with options of its own: that before the subcommand, or that from
the subcommand on. -/
abbrev Level := Option Verb

def Level.admits (l : Level) : Flag → Bool
  | .config | .functionsDir | .format => true
  | .arguments | .source => l == some .expand

def Flag.ofLong? : String → Option Flag
  | "config" => some config
  | "functions-dir" => some functionsDir
  | "format" => some format
  | "args" => some arguments
  | "source" => some source
  | _ => none

def Flag.ofShort? : Char → Option Flag
  | 'c' => some config
  | 'o' => some format
  | 'a' => some arguments
  | _ => none

def OutputFormat.ofName? : String → Option OutputFormat
  | "json" => some json
  | "pretty" => some pretty
  | _ => none

/-- Whether an option may have a value. Paths are not empty. -/
def Flag.accepts : Flag → String → Bool
  | config, v | functionsDir, v => !v.isEmpty
  | format, v => (OutputFormat.ofName? v).isSome
  | _, _ => true

/-- What has been read on a level. -/
structure Words where
  options : List (Flag × String)
  /-- The last option, if its value is a word of its own and has not been looked at. -/
  pending : Option (Flag × String)
  positionals : List String

namespace Words

def empty : Words := ⟨[], none, []⟩

def get? (w : Words) (f : Flag) : Option String := w.options.lookup f

/-- Looks at the pending option. An option is set once on a level. -/
def settle (w : Words) : Except Stop Words :=
  match w.pending with
  | none => .ok w
  | some (f, v) =>
    if f.accepts v && (w.get? f).isNone then
      .ok { w with options := (f, v) :: w.options, pending := none }
    else .error .misuse

/-- Adds an option whose value is looked at when the level goes on or ends. -/
def await (w : Words) (f : Flag) (v : String) : Except Stop Words := do
  return { ← w.settle with pending := some (f, v) }

/-- Adds an option whose value is looked at now. -/
def set (w : Words) (f : Flag) (v : String) : Except Stop Words := do (← w.await f v).settle

/-- Adds a word that is no option, if the subcommand has a place for it. -/
def push (w : Words) (v : Verb) (s : String) : Except Stop Words := do
  let w ← w.settle
  if w.positionals.length < v.places then return { w with positionals := w.positionals ++ [s] }
  else .error .misuse

end Words

/-- What a word on the command line is. -/
inductive Word
  | separator
  | help
  | option (f : Flag) (value : Option String)
  | unknown
  | positional (s : String)

/-- Tells what a word with a single dash is: the first letter decides, and the rest is its value. -/
def Word.ofShort (l : Level) (letter : Char) (rest : List Char) : Word :=
  if letter = 'h' || (letter = 'V' && l.isNone) then help
  else
    match (Flag.ofShort? letter).filter l.admits with
    | none => unknown
    | some f =>
      match rest with
      | [] => option f none
      | '=' :: value => option f (some (String.ofList value))
      | value => option f (some (String.ofList value))

/-- Tells what a word with two dashes is; a value may stand behind an equals sign. -/
def Word.ofLong (l : Level) (cs : List Char) : Word :=
  let name := String.ofList (cs.takeWhile (· != '='))
  let value := match cs.dropWhile (· != '=') with
    | _ :: value => some (String.ofList value)
    | [] => none
  if name = "help" || (name = "version" && l.isNone) then
    if value.isNone then help else unknown
  else
    match (Flag.ofLong? name).filter l.admits with
    | none => unknown
    | some f => option f value

/-- Tells what a word is. A single dash is a word of its own. -/
def Word.classify (l : Level) (s : String) : Word :=
  match s.toList with
  | ['-', '-'] => separator
  | '-' :: '-' :: cs => ofLong l cs
  | '-' :: c :: cs => ofShort l c cs
  | _ => positional s

/-- Reads the words of a level, and may leave an option pending at its end. Without a subcommand the
first word that is no option ends the level; it and the words after it are given back. -/
def readLevel (l : Level) : List String → Words → Except Stop (Words × List String)
  | [], w => .ok (w, [])
  | s :: rest, w =>
    match Word.classify l s with
    | .help => do
      let _ ← w.settle
      .error .help
    | .unknown => .error .misuse
    | .separator =>
      match l with
      | none => if rest.isEmpty then .ok (w, []) else .error .misuse
      | some v => do return (← rest.foldlM (·.push v ·) w, [])
    | .positional s =>
      match l with
      | none => .ok (w, s :: rest)
      | some v => do readLevel l rest (← w.push v s)
    | .option f (some v) => do readLevel l rest (← w.set f v)
    | .option f none =>
      match rest with
      | [] => .error .misuse
      | v :: rest =>
        match Word.classify l v with
        | .positional v => do readLevel l rest (← w.await f v)
        | _ => .error .misuse

def Verb.task (v : Verb) (w : Words) : Except Stop Task :=
  match v, w.positionals with
  | list, [] => .ok .list
  | check, [] => .ok .check
  | expand, [id] => .ok (.expand id (w.get? .arguments) (w.get? .source))
  | parse, [command] => .ok (.parse command)
  | _, _ => .error .misuse

/-- What a request for help with the named subcommands leads to. -/
def helpOn : List String → Stop
  | [] => .help
  | [name] => if (Verb.ofName? name).isSome || name = "help" then .help else .misuse
  | _ => .misuse

/-- Understands a command line. The options before a subcommand are settled when the rest has been
read. Of options on both levels the later wins, and a variable may name the configuration file, but
not by an empty text. -/
def Request.parse (args : List String) (env : Environment) : Except Stop Request := do
  let (outer, rest) ← readLevel none args .empty
  match rest with
  | [] => .error .misuse
  | "help" :: names => .error (helpOn names)
  | name :: rest =>
    match Verb.ofName? name with
    | none => .error .misuse
    | some verb =>
      let (inner, _) ← readLevel (some verb) rest .empty
      let inner ← inner.settle
      let outer ← outer.settle
      let fallback := env.lookup Config.fileVariable
      let get? (f : Flag) : Option String := (inner.get? f).or (outer.get? f)
      if fallback == some "" &&
          ((inner.get? .config).isNone || (outer.get? .config).isNone) then
        .error .misuse
      else
        return {
          config := (get? .config).or fallback
          functionsDir := get? .functionsDir
          format := ((get? .format).bind OutputFormat.ofName?).getD .pretty
          task := ← verb.task inner }

end CommandScript.Cli
