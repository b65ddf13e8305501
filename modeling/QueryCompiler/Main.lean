import QueryCompiler.CommandLine.Run

/-!
# The program

Reads the files that a command line may name, runs it, and prints what comes of it.
-/

namespace QueryCompiler.CommandLine

/-- What is found at a path of the system. A directory can be opened, but not read. -/
def readState (path : String) : IO FileState := do
  try
    let handle ← IO.FS.Handle.mk path .read
    let bytes ← handle.readBinToEnd
    match String.fromUTF8? bytes with
    | some s => return .text s
    | none => return .unreadable
  catch
    | .permissionDenied .. => return .unreadable
    | _ => return .absent

/-- The files that a command line may read. -/
def readAll (paths : List String) : IO (List (String × FileState)) :=
  paths.mapM fun path => return (path, ← readState path)

/-- The files at some paths. -/
def lookupState (found : List (String × FileState)) (path : String) : FileState :=
  (found.lookup path).getD .absent

end QueryCompiler.CommandLine

open QueryCompiler.CommandLine

def main (args : List String) : IO UInt32 := do
  let home ← IO.getEnv "HOME"
  let url ← IO.getEnv "JOINERY_DATABASE_URL"
  let paths := match parse? args with
    | some (.run i) => i.paths ⟨fun _ => .absent, home, url⟩
    | _ => []
  let found ← readAll paths
  let result := run ⟨lookupState found, home, url⟩ args
  IO.print result.printed
  match result.exit with
  | .success => return 0
  | .failure message =>
    IO.eprintln ("Error: " ++ message)
    return 1
  | .usage =>
    IO.eprintln "usage: joinery [OPTIONS] (select | count [-e] | explain) REQUEST"
    return 2
