import CommandScript.Grammar.File
import CommandScript.Script.Directory

/-! Configuration: where functions and the grammar are, and how they are loaded. -/
namespace CommandScript
open Grammar Script

structure Config where
  functionsDir : String
  fileExtension : String
  /-- The namespace of identifiers that are written without one. -/
  defaultSpace : String
  /-- The source under which functions are loaded. -/
  loadSource : Source
  /-- The file with the usage lines; without one the built-in commands are used. -/
  grammarFile : Option String
  maxLength : Nat
deriving DecidableEq

/-- Why a configuration, or what it points to, is not to be had. -/
inductive ConfigError
  | malformed
  | unreadableFile (path : String) (cause : FileError)
  | malformedFile (path : String)
  | unreadableGrammar (path : String) (cause : FileError)
  | badGrammar (path : String) (cause : GrammarFileError)
  | unlistable (path : String) (cause : LoadError)
deriving DecidableEq

def ConfigError.message : ConfigError → String
  | malformed => "Failed to parse engine config"
  | unreadableFile path _ => "Failed to read " ++ path
  | malformedFile path => "Failed to parse " ++ path
  | unreadableGrammar path _ => "Failed to read grammar " ++ path
  | badGrammar path _ => "Failed to load grammar " ++ path
  | unlistable path _ => "Failed to load functions from " ++ path

abbrev Environment := List (String × String)

namespace Config

def default : Config where
  functionsDir := "functions"
  fileExtension := "mcfunction"
  defaultSpace := Identifier.defaultSpace
  loadSource := .default
  grammarFile := none
  maxLength := GrammarValidator.defaultMaxLength

def fileVariable : String := "CMDFN_CONFIG"

def functionsVariable : String := "CMDFN_FUNCTIONS_DIR"

/-- The variable that overrides the default namespace. -/
def spaceVariable : String := "CMDFN_DEFAULT_NAMESPACE"

/-- The configuration file that is read if no other is named. -/
def defaultFile : String := "cmdfn.yaml"

/-- Reads a source, both parts of which have to be there. -/
def source? (v : Yaml) : Option Source := do
  let members ← v.members?
  let name ← Yaml.field? members "name" none Yaml.string?
  let level ← Yaml.field? members "permission_level" none (Yaml.unsigned? UInt8.size)
  return ⟨name, .ofNat level⟩

/-- Reads a configuration. What is missing has its default, and members without meaning are passed
over. -/
def ofYaml? (document : Yaml) : Option Config := do
  let members ← document.members?
  let text (name usual : String) := Yaml.field? members name (some usual) Yaml.string?
  return {
    functionsDir := ← text "functions_dir" default.functionsDir
    fileExtension := ← text "file_extension" default.fileExtension
    defaultSpace := ← text "default_namespace" default.defaultSpace
    loadSource := ← Yaml.field? members "load_source" (some default.loadSource) source?
    grammarFile := ← Yaml.field? members "grammar_file" (some none) (Yaml.optional? Yaml.string?)
    maxLength := ← Yaml.field? members "max_command_length" (some default.maxLength)
      (Yaml.unsigned? UInt64.size) }

def parse (text : String) : Except ConfigError Config :=
  match (Yaml.parse text).bind ofYaml? with
  | some c => .ok c
  | none => .error .malformed

def rebase (c : Config) (base : String) : Config :=
  { c with
    functionsDir := Path.join base c.functionsDir
    grammarFile := c.grammarFile.map (Path.join base) }

/-- Reads a configuration file, whose relative paths start at its own directory. -/
def load (fs : Folder) (cwd path : String) : Except ConfigError Config :=
  match fs.readText cwd path with
  | .error e => .error (.unreadableFile path e)
  | .ok text =>
    match (Yaml.parse text).bind ofYaml? with
    | none => .error (.malformedFile path)
    | some c => .ok (match Path.parent? path with
      | some base => c.rebase base
      | none => c)

def override (c : Config) (env : Environment) : Config :=
  { c with
    functionsDir := (env.lookup functionsVariable).getD c.functionsDir
    defaultSpace := (env.lookup spaceVariable).getD c.defaultSpace }

/-- The configuration of an environment: the file that a variable names, else the usual file in the
working directory if there is one, else the defaults; and the overrides. -/
def ofEnvironment (fs : Folder) (cwd : String) (env : Environment) : Except ConfigError Config := do
  let usual := Path.join cwd defaultFile
  let c ← match env.lookup fileVariable with
    | some path => load fs cwd path
    | none => if fs.exists? cwd usual then load fs cwd usual else .ok default
  return c.override env

def tree (c : Config) (fs : Folder) (cwd : String) : Except ConfigError Tree :=
  match c.grammarFile with
  | none => .ok .builtin
  | some path =>
    match fs.readText cwd path with
    | .error e => .error (.unreadableGrammar path e)
    | .ok text => (Tree.ofYaml text).mapError (.badGrammar path)

def validator (c : Config) (fs : Folder) (cwd : String) : Except ConfigError GrammarValidator :=
  (c.tree fs cwd).map fun t => ⟨t, c.maxLength⟩

/-- Reads an identifier in the default namespace of a configuration. -/
def identifier (c : Config) (s : String) : Except IdentifierError Identifier :=
  Identifier.parseWithDefault s c.defaultSpace

def registry (c : Config) (fs : Folder) (cwd : String) (ctx : Context) :
    Except ConfigError (Registry × Report) :=
  (loadDirectory fs cwd c.functionsDir c.fileExtension ctx).mapError (.unlistable c.functionsDir)

end Config
end CommandScript
