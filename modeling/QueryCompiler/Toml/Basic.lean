/-!
# TOML values

A `Toml` is the value of a settings file; the entries of tables stand in the order of the file.
`record?` takes a table or an array apart by field names. Main statement: `record?_table`.
-/

namespace QueryCompiler

inductive Toml
  | text (s : String)
  | int (n : Int64)
  | float (x : Float)
  | bool (b : Bool)
  | dateTime (s : String)
  | array (items : List Toml)
  | table (entries : List (String × Toml))

namespace Toml

/-- The key under which a date-time gives its text where a table is wanted. -/
def dateTimeKey : String := "$__toml_private_datetime"

/-- The entries of a table; a date-time counts as a table with its text alone. -/
def entries? : Toml → Option (List (String × Toml))
  | table entries => some entries
  | dateTime s => some [(dateTimeKey, text s)]
  | _ => none

def asText? : Toml → Option String
  | text s => some s
  | _ => none

def asInt? : Toml → Option Int64
  | int n => some n
  | _ => none

/-- The fields of a record in the order of their names: the entries of a table, or the first items
of an array. What is beside them does not matter. -/
def record? (names : List String) : Toml → Option (List (Option Toml))
  | array items => some ((List.range names.length).map fun i => items[i]?)
  | t => t.entries?.map fun es => names.map fun name => es.lookup name

/-- Nothing but brackets. -/
def isEmptyBrackets : Toml → Bool
  | array [] | table [] => true
  | _ => false

/-- The name of a variant that carries nothing: a text, or the one key of a table whose value is
empty. -/
def variant? : Toml → Option String
  | text s => some s
  | table [(name, body)] => if body.isEmptyBrackets then some name else none
  | _ => none

/-- A field that may be left out. -/
def optional? {α : Type} (standard : α) (f : Toml → Option α) : Option Toml → Option α
  | none => some standard
  | some t => f t

/-- A field that must be there. -/
def required? {α : Type} (f : Toml → Option α) : Option Toml → Option α
  | none => none
  | some t => f t

theorem record?_table (names : List String) (es : List (String × Toml)) :
    record? names (table es) = some (names.map fun name => es.lookup name) := by
  simp [record?, entries?]

end Toml

end QueryCompiler
