import CommandScript.Registry
import CommandScript.Script.Function

/-! Loading the function files of a directory. A directory on its top level is a namespace, and the
names below it make up the path of an identifier. -/
namespace CommandScript.Script

/-- The identifier of a function file below a root directory. -/
def identifierFor (root path : String) : Except LoadError Identifier :=
  let names := (Path.stripBase? root path).getD (Path.components path)
  let names := names.dropLast ++ (names.getLast?.map Path.dropExtension).toList
  (Identifier.ofParts (names.head?.getD "") ("/".intercalate names.tail)).mapError
    (.invalidIdentifier path)

/-- What came of loading a directory: how many files were loaded, and the failures of the others. -/
structure Report where
  loaded : Nat
  failures : List (String × LoadError)
deriving DecidableEq

def Report.isClean (r : Report) : Bool := r.failures.isEmpty

/-- A file to load. -/
structure Candidate where
  path : String
  /-- What is read there. -/
  content : Except FileError ByteArray

/-- Whether the last of the names that lead to a file has a given extension. -/
def hasExtension (extension : String) (names : List String) : Bool :=
  (names.getLast?.bind Path.extension?) == some extension

/-- The function files below a root directory that holds `folder`, in the order in which they are
loaded: by the names that lead to them. Files in the root directory itself do not count. -/
def candidates (root extension : String) (folder : Folder) : List Candidate :=
  let files := (folder.files root).filter fun f =>
    decide (1 < f.1.length) && hasExtension extension f.1
  (files.mergeSort fun a b => (compare a.1 b.1).isLE).map fun f => ⟨f.1.foldl Path.join root, f.2⟩

def loadCandidate (root : String) (ctx : Context) (c : Candidate) : Except LoadError Procedure := do
  loadText (← identifierFor root c.path) c.path (c.content.bind Folder.decode) ctx

def loadNext (root : String) (ctx : Context) (s : Registry × Report) (c : Candidate) :
    Registry × Report :=
  match loadCandidate root ctx c with
  | .ok p => ((s.1.add p).2.addSourceFile c.path, { s.2 with loaded := s.2.loaded + 1 })
  | .error e => (s.1, { s.2 with failures := s.2.failures ++ [(c.path, e)] })

/-- Loads all function files below a root directory that holds `folder`. -/
def loadFolder (root extension : String) (folder : Folder) (ctx : Context) : Registry × Report :=
  (candidates root extension folder).foldl (loadNext root ctx) (.empty, ⟨0, []⟩)

/-- Loads all function files below the directory that a path leads to; none if it leads nowhere. -/
def loadDirectory (fs : Folder) (cwd path extension : String) (ctx : Context) :
    Except LoadError (Registry × Report) :=
  match fs.resolve cwd path with
  | .error _ => .ok (.empty, ⟨0, []⟩)
  | .ok (.file _) => .error (.unreadable path .notDirectory)
  | .ok (.folder folder) => .ok (loadFolder path extension folder ctx)

end CommandScript.Script
