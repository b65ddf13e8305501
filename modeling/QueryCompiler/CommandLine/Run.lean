import QueryCompiler.CommandLine.Arguments
import QueryCompiler.Draft.Request
import QueryCompiler.Explain
import QueryCompiler.Settings

/-!
# Running a command

A command line is run against the files it names: `run` gives the text that is printed and the
outcome.
-/

namespace QueryCompiler.CommandLine

/-- What is found at a path. -/
inductive FileState
  | absent
  | unreadable
  | text (s : String)

/-- Where a command runs: the files by path, the user's directory, and the address of the database
that the environment gives. -/
structure World where
  files : String → FileState
  home : Option String
  url : Option String

/-- How a command ended. -/
inductive Exit
  | success
  | failure (message : String)
  | usage

/-- What a command printed, and how it ended. -/
structure Result where
  printed : String
  exit : Exit

/-! ## Files -/

def settingsFile : String := "joinery.toml"

/-- The places where settings are looked for. -/
def settingsPaths (home : Option String) : List String :=
  settingsFile :: (home.map fun dir => dir ++ "/.config/joinery/" ++ settingsFile).toList

/-- The settings at a path that was asked for. -/
def settingsAt : FileState → Except Fault Settings
  | .text s => Settings.read s
  | _ => .error .malformedSettings

/-- The settings at the first path where there is a file; standard ones if there is none. -/
def discover (files : String → FileState) : List String → Except Fault Settings
  | [] => .ok .standard
  | path :: paths =>
    match files path with
    | .absent => discover files paths
    | state => settingsAt state

/-- The settings of an invocation: those of the file that it names, or of the first place where
there is a file, and what its options say instead. -/
def Invocation.settings (w : World) (i : Invocation) : Except Fault Settings := do
  let s ← match i.options.catalog with
    | some path => settingsAt (w.files path)
    | none => discover w.files (settingsPaths w.home)
  let policy := if i.options.strict then .strict else s.compiler.policy
  let url := (i.options.url.or w.url).or s.database.url
  return { s with
    compiler := { s.compiler with policy := policy }
    database := { s.database with url := url } }

/-- The paths that an invocation may read. -/
def Invocation.paths (w : World) (i : Invocation) : List String :=
  i.request :: i.options.catalog.toList ++ settingsPaths w.home

/-! ## Commands -/

/-- A failure with its wording. -/
def worded {α : Type} (x : Except Fault α) : Logged String α := .lift (x.mapError Fault.message)

/-- The same failure with words in front. -/
def explained {α : Type} (words : String) (x : Except Fault α) : Logged String α :=
  .lift (x.mapError fun e => words ++ ": " ++ e.message)

def readRequest (policy : Policy) : FileState → Except Fault Request
  | .text s => Request.parse policy s
  | _ => .error .unreadableFile

/-- Connects to a database; none is within reach. -/
def connect (s : DatabaseSettings) : Except Fault Unit :=
  match s.url with
  | none => .error .malformedSettings
  | some _ => .error .noConnection

/-- Prints the count statement, or runs it. -/
def printCount (o : Options) (s : Settings) (q : Sql) : Logged String Unit :=
  if o.execute then do
    if o.verbose then
      .write "Generated SQL:"
      .write q.toText
    explained "use --database-url or set JOINERY_DATABASE_URL" (connect s.database)
  else .write q.toText

/-- What an invocation prints, line by line. -/
def Invocation.run (w : World) (i : Invocation) : Logged String Unit := do
  let s ← worded (i.settings w)
  let r ← explained ("failed to load request " ++ i.request)
    (readRequest s.compiler.policy (w.files i.request))
  let k : Compiler := ⟨s.catalog, s.compiler.sentinel⟩
  match i.command with
  | .select => do .write (← worded (k.select r)).toText
  | .count => do printCount i.options s (← worded (k.count r))
  | .explain =>
    let x := k.explain r
    ⟨x.log, x.outcome.mapError Fault.message⟩

/-- Lines with their ends. -/
def printed (lines : List String) : String := String.join (lines.map (· ++ "\n"))

/-- The name and version of the program. -/
def versionLine : String := "joinery 0.3.0"

/-- Runs a command line. -/
def run (w : World) (args : List String) : Result :=
  match parse? args with
  | none => ⟨"", .usage⟩
  | some .version => ⟨printed [versionLine], .success⟩
  | some (.run i) =>
    let x := i.run w
    ⟨printed x.log, match x.outcome with
      | .ok _ => .success
      | .error message => .failure message⟩

example (w : World) : run w ["--version"] = ⟨"joinery 0.3.0\n", .success⟩ := rfl

end QueryCompiler.CommandLine
