import CommandScript.Cli.Run

/-! The program: it takes a snapshot of the files that its command line leads to, and carries the
task out on that. -/
namespace CommandScript.Cli

/-- Reads what a path leads to, a directory with all that is below it. What has a path there that is
refused is not looked at; its content does not matter. -/
partial def capture (path : String) : IO (Option Entry) := do
  let place := System.mkFilePath [path]
  if ← place.isDir then
    let mut inside := Folder.empty
    for e in ← place.readDir do
      let below := Path.join path e.fileName
      match Folder.checkPath below with
      | .error _ => inside := .file e.fileName .empty inside
      | .ok _ =>
        match ← capture below with
        | some (.file content) => inside := .file e.fileName content inside
        | some (.folder folder) => inside := .folder e.fileName folder inside
        | none => pure ()
    return some (.folder inside)
  else if ← place.pathExists then return some (.file (← IO.FS.readBinFile place))
  else return none

/-- Adds what a path leads to, and the directories on the way there. -/
def capturePath (cwd : String) (fs : Folder) (path : String) : IO Folder := do
  match ← capture path with
  | none => return fs
  | some e => return fs.putPath (Path.join cwd path) e

def environment : IO Environment :=
  [Config.fileVariable, Config.functionsVariable, Config.spaceVariable].filterMapM fun name => do
    return (← IO.getEnv name).map (name, ·)

end CommandScript.Cli

open CommandScript CommandScript.Cli

/-- Runs the program on a command line. What the configuration leads to is known only when its file
has been read, so there are two snapshots. -/
def main (args : List String) : IO UInt32 := do
  let cwd := (← IO.currentDir).toString
  let env ← environment
  let paths (fs : Folder) : List String :=
    match Request.parse args env with
    | .ok r => r.paths fs cwd env
    | .error _ => []
  let here := Folder.empty.putPath cwd (.folder .empty)
  let known ← (paths here).foldlM (capturePath cwd) here
  let fs ← (paths known).foldlM (capturePath cwd) here
  let outcome := run fs cwd env args
  IO.print outcome.output
  IO.eprint outcome.errors
  return outcome.exitCode.toUInt32
