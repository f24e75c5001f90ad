/-! Paths as text, with slashes between their names. -/
namespace CommandScript.Path

/-- The greatest size of a path in bytes. -/
def maxSize : Nat := 4095

/-- The greatest size of a single name in bytes. -/
def maxNameSize : Nat := 255

def pieces (path : String) : List String := (path.toList.splitOn '/').map String.ofList

def ofPieces (ps : List String) : String := "/".intercalate ps

def isAbsolute (path : String) : Bool := path.toList.head? == some '/'

/-- Whether a piece behind the first slash names nothing: it is empty, or a single dot. -/
def isIdle (piece : String) : Bool := piece == "" || piece == "."

/-- The names on a path. An absolute path begins with a slash; a dot counts only in front. -/
def components (path : String) : List String :=
  let ps := pieces path
  let lead := if isAbsolute path then ["/"] else if ps.head? = some "." then ["."] else []
  lead ++ ps.filter fun p => !isIdle p

/-- A path below another; an absolute path stands alone. -/
def join (base path : String) : String :=
  if isAbsolute path || base.isEmpty then path
  else if base.toList.getLast? = some '/' then base ++ path
  else base ++ "/" ++ path

/-- The names that lead from the root to where pieces lead. Two dots take the name before them
away. -/
def settle (ps : List String) : List String :=
  (ps.foldl (fun names p =>
    if isIdle p then names else if p == ".." then names.tail else p :: names) []).reverse

/-- The pieces without those at the end that name nothing. -/
def dropIdleEnd (ps : List String) : List String := (ps.reverse.dropWhile isIdle).reverse

/-- The path without its last name. The root and the empty path have none to lose. -/
def parent? (path : String) : Option String :=
  match pieces path with
  | [] => none
  | first :: rest =>
    if dropIdleEnd rest = [] then
      if first = "" then none else some ""
    else
      match dropIdleEnd (dropIdleEnd rest).dropLast with
      | [] => some (if first = "" then "/" else first)
      | kept => some (ofPieces (first :: kept))

def stripBase? (base path : String) : Option (List String) :=
  (components base).isPrefixOf? (components path)

/-- The parts of a file name before and behind its last dot. A name without a dot behind its first
character has no extension. -/
def splitExtension (name : List Char) : List Char × Option (List Char) :=
  if name = ['.', '.'] then (name, none)
  else
    let behind := name.reverse.takeWhile (· != '.')
    match name.reverse.dropWhile (· != '.') with
    | _ :: c :: before => ((c :: before).reverse, some behind.reverse)
    | _ => (name, none)

def extension? (name : String) : Option String :=
  (splitExtension name.toList).2.map String.ofList

/-- A file name without its extension. Of a name whose stem is one dot two dots are left: they
name the directory above, and are kept as they are. -/
def dropExtension (name : String) : String :=
  match splitExtension name.toList with
  | (['.'], some _) => ".."
  | (stem, _) => String.ofList stem

end CommandScript.Path
