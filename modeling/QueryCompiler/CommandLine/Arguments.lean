/-!
# Arguments

What a command line asks for. Options stand before or after the command; each may stand once on
either side, and a value that stands after it wins. Main statements: `merge_none` and `none_merge`
(a side without options changes nothing).
-/

namespace QueryCompiler.CommandLine

inductive Command
  | select
  | count
  | explain
deriving DecidableEq, Repr

def Command.ofText? : String → Option Command
  | "select" => some select
  | "count" => some count
  | "explain" => some explain
  | _ => none

/-- The options on one side of the command. -/
structure Options where
  catalog : Option String
  url : Option String
  strict : Bool
  verbose : Bool
  execute : Bool
deriving DecidableEq, Repr

/-- A command with its request file and options. -/
structure Invocation where
  command : Command
  request : String
  options : Options
deriving DecidableEq, Repr

/-- What a command line asks for. -/
inductive Task
  | version
  | run (i : Invocation)
deriving DecidableEq, Repr

namespace Options

def none : Options := ⟨.none, .none, false, false, false⟩

/-- The options of both sides. The side after the command is nearer to it. -/
def merge (before after : Options) : Options where
  catalog := after.catalog.or before.catalog
  url := after.url.or before.url
  strict := before.strict || after.strict
  verbose := before.verbose || after.verbose
  execute := before.execute || after.execute

theorem merge_none (o : Options) : o.merge none = o := by
  simp [merge, none]

theorem none_merge (o : Options) : none.merge o = o := by
  simp [merge, none]

/-- A path is not empty, and is given once. -/
def setCatalog? (o : Options) (path : String) : Option Options :=
  if o.catalog.isSome || path = "" then .none else some { o with catalog := some path }

def setUrl? (o : Options) (url : String) : Option Options :=
  if o.url.isSome then .none else some { o with url := some url }

def setStrict? (o : Options) : Option Options :=
  if o.strict then .none else some { o with strict := true }

def setVerbose? (o : Options) : Option Options :=
  if o.verbose then .none else some { o with verbose := true }

/-- Only a count can be executed. -/
def setExecute? (side : Option Command) (o : Options) : Option Options :=
  if o.execute || side ≠ some .count then .none else some { o with execute := true }

end Options

/-- What an option does: it changes the options, waits for a value, or asks for the version. -/
inductive Effect
  | set (o : Options)
  | wants (f : String → Option Options)
  | version

/-- A run of one-letter options. The catalog takes the rest of the run as its value, or the next
argument. `side` is the command that stands before, if one does. -/
def letters? (side : Option Command) (o : Options) : List Char → Option Effect
  | [] => some (.set o)
  | 'v' :: cs => o.setVerbose?.bind fun o => letters? side o cs
  | 'e' :: cs => (o.setExecute? side).bind fun o => letters? side o cs
  | ['c'] => some (.wants o.setCatalog?)
  | 'c' :: '=' :: cs => (o.setCatalog? (String.ofList cs)).map .set
  | 'c' :: cs => (o.setCatalog? (String.ofList cs)).map .set
  | 'V' :: _ => if side.isNone then some .version else none
  | _ => none

/-- An option by its full name, with the value behind an equals sign if there is one. -/
def named? (side : Option Command) (o : Options) (name : String) (value : Option String) :
    Option Effect :=
  match name, value with
  | "catalog", some path => (o.setCatalog? path).map .set
  | "catalog", none => some (.wants o.setCatalog?)
  | "database-url", some url => (o.setUrl? url).map .set
  | "database-url", none => some (.wants o.setUrl?)
  | "strict", none => o.setStrict?.map .set
  | "verbose", none => o.setVerbose?.map .set
  | "execute", none => (o.setExecute? side).map .set
  | "version", none => if side.isNone then some .version else none
  | _, _ => none

/-- What stands before an equals sign, and what stands behind it. -/
def splitEquals (cs : List Char) : String × Option String :=
  match cs.dropWhile (· ≠ '=') with
  | [] => (String.ofList cs, none)
  | _ :: value => (String.ofList (cs.takeWhile (· ≠ '=')), some (String.ofList value))

/-- An argument that starts with a hyphen; a hyphen alone is a value. -/
def isOption (arg : String) : Bool := arg.toList.head? = some '-' && arg ≠ "-"

/-- The effect of an argument that is an option. -/
def effect? (side : Option Command) (o : Options) (arg : String) : Option Effect :=
  match arg.toList with
  | '-' :: '-' :: cs =>
    let (name, value) := splitEquals cs
    named? side o name value
  | '-' :: cs => letters? side o cs
  | _ => none

/-- The one request file behind a command. -/
def request? (o : Options) (files : List String) : Option (Options × String) :=
  match files with
  | [file] => if file = "" then none else some (o, file)
  | _ => none

/-- Reads what stands behind a command; `files` are the request files so far. Behind two hyphens
stand only files. -/
def afterCommand? (command : Command) (o : Options) (files : List String) :
    List String → Option (Options × String)
  | [] => request? o files
  | arg :: args =>
    if arg = "--" then request? o (files ++ args)
    else if isOption arg then
      match effect? (some command) o arg with
      | some (.set o) => afterCommand? command o files args
      | some (.wants f) =>
        match args with
        | value :: args =>
          if isOption value then none
          else
            match f value with
            | some o => afterCommand? command o files args
            | none => none
        | [] => none
      | _ => none
    else afterCommand? command o (files ++ [arg]) args

/-- Reads a command line from an option or the command on. -/
def parseFrom? (o : Options) : List String → Option Task
  | [] => none
  | arg :: args =>
    if isOption arg then
      match effect? none o arg with
      | some (.set o) => parseFrom? o args
      | some (.wants f) =>
        match args with
        | value :: args =>
          if isOption value then none
          else
            match f value with
            | some o => parseFrom? o args
            | none => none
        | [] => none
      | some .version => some .version
      | none => none
    else do
      let command ← Command.ofText? arg
      let (after, file) ← afterCommand? command .none [] args
      return .run ⟨command, file, o.merge after⟩

/-- What a command line asks for; none if it cannot be understood. -/
def parse? (args : List String) : Option Task := parseFrom? .none args

example : parse? ["--version"] = some .version := by decide

end QueryCompiler.CommandLine
