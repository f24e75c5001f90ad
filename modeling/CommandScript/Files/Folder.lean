import CommandScript.Files.Path

/-! A snapshot of a directory tree, and looking files up in it. -/
namespace CommandScript

/-- What a directory holds, as its first entry and the entries after that one. -/
inductive Folder
  | empty
  | file (name : String) (content : ByteArray) (rest : Folder)
  | folder (name : String) (inside rest : Folder)

/-- A file or a directory. -/
inductive Entry
  | file (content : ByteArray)
  | folder (inside : Folder)

/-- Why a file is not to be read. -/
inductive FileError
  | notFound
  | notDirectory
  | isDirectory
  | invalidText
  | tooLong
  | invalidPath
deriving DecidableEq

def FileError.message : FileError → String
  | notFound => "No such file or directory (os error 2)"
  | notDirectory => "Not a directory (os error 20)"
  | isDirectory => "Is a directory (os error 21)"
  | invalidText => "stream did not contain valid UTF-8"
  | tooLong => "File name too long (os error 36)"
  | invalidPath => "file name contained an unexpected NUL byte"

namespace Folder

def find? (name : String) : Folder → Option Entry
  | empty => none
  | file name' content rest => if name' = name then some (.file content) else rest.find? name
  | folder name' inside rest => if name' = name then some (.folder inside) else rest.find? name

/-- Refuses a path that leads nowhere, whatever there is: its text counts as it stands. -/
def checkPath (path : String) : Except FileError Unit :=
  if path.toList.contains '\x00' then .error .invalidPath
  else if path.isEmpty then .error .notFound
  else if Path.maxSize < path.utf8ByteSize then .error .tooLong
  else .ok ()

/-- Follows the pieces of a path from an entry, below the directories that led there, the nearest
first. -/
def follow (above : List Folder) : Entry → List String → Except FileError Entry
  | e, [] => .ok e
  | .file _, _ :: _ => .error .notDirectory
  | .folder here, piece :: rest =>
    if Path.isIdle piece then follow above (.folder here) rest
    else if piece = ".." then
      match above with
      | [] => follow [] (.folder here) rest
      | up :: above => follow above (.folder up) rest
    else if Path.maxNameSize < piece.utf8ByteSize then .error .tooLong
    else
      match here.find? piece with
      | none => .error .notFound
      | some e => follow (here :: above) e rest

/-- What a path leads to; a relative one starts at a directory that is given too. -/
def resolve (root : Folder) (cwd path : String) : Except FileError Entry := do
  checkPath path
  follow [] (.folder root) (Path.pieces (Path.join cwd path))

def exists? (root : Folder) (cwd path : String) : Bool := (root.resolve cwd path).isOk

def decode (content : ByteArray) : Except FileError String :=
  match String.fromUTF8? content with
  | some s => .ok s
  | none => .error .invalidText

/-- The text of the file that a path leads to. -/
def readText (root : Folder) (cwd path : String) : Except FileError String :=
  match root.resolve cwd path with
  | .error e => .error e
  | .ok (.folder _) => .error .isDirectory
  | .ok (.file content) => decode content

/-- All files at any depth below a directory with a path, each with the names that lead to it and
what is read there. A directory is not to be entered by a path that is refused; it counts as a file
that is not to be read. -/
def files (path : String) : Folder → List (List String × Except FileError ByteArray)
  | empty => []
  | file name content rest =>
    ([name], (checkPath (Path.join path name)).map fun _ => content) :: rest.files path
  | folder name inside rest =>
    let here := match checkPath (Path.join path name) with
      | .error e => [([name], .error e)]
      | .ok _ => (inside.files (Path.join path name)).map fun f => (name :: f.1, f.2)
    here ++ rest.files path

/-- The single entry `e` below the names that lead to it. -/
def single (e : Entry) : String → List String → Folder
  | name, [] =>
    match e with
    | .file content => file name content empty
    | .folder inside => folder name inside empty
  | name, next :: names => folder name (single e next names) empty

/-- Puts an entry below the names that lead to it. A file takes the place of an entry with its name,
and a directory leaves one as it is. -/
def put (e : Entry) : Folder → String → List String → Folder
  | empty, name, names => single e name names
  | file name' content rest, name, names =>
    if name' = name then
      match names, e with
      | [], .file content => file name content rest
      | [], .folder _ => file name' content rest
      | next :: names, e => folder name (single e next names) rest
    else file name' content (rest.put e name names)
  | folder name' inside rest, name, names =>
    if name' = name then
      match names, e with
      | [], .file content => file name content rest
      | [], .folder _ => folder name' inside rest
      | next :: names, e => folder name' (inside.put e next names) rest
    else folder name' inside (rest.put e name names)

/-- Puts an entry below the names that lead to it from the root. Only a directory can be the root,
and only in the place of none. -/
def putAt (fs : Folder) (e : Entry) : List String → Folder
  | name :: names => fs.put e name names
  | [] =>
    match fs, e with
    | empty, .folder inside => inside
    | fs, _ => fs

/-- Puts an entry where an absolute path leads, and directories all along the way. -/
def putPath (fs : Folder) (path : String) (e : Entry) : Folder :=
  let pieces := Path.pieces path
  let ways := (List.range pieces.length).map fun n => Path.settle (pieces.take n)
  ways.foldl (fun fs way => fs.putAt (.folder empty) way) (fs.putAt e (Path.settle pieces))

end Folder
end CommandScript
