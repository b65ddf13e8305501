import QueryCompiler.Catalog
import QueryCompiler.Draft.Grouping
import QueryCompiler.Toml.Reader

/-!
# Settings

What a settings file says: how open groups end, what stands for an empty list, where the database
is, and the catalog. What it leaves out has a standard.
-/

namespace QueryCompiler

open Toml

/-- Where the database is, and how many connections are kept. -/
structure DatabaseSettings where
  url : Option String
  maxConnections : Nat
deriving DecidableEq, Repr

/-- How requests are compiled. -/
structure CompilerSettings where
  policy : Policy
  sentinel : Int64
deriving DecidableEq, Repr

/-- What a settings file says. -/
structure Settings where
  compiler : CompilerSettings
  database : DatabaseSettings
  catalog : Catalog

/-- The standard for an empty list; keys are positive, so that nothing matches it. -/
def standardSentinel : Int64 := -1

namespace CompilerSettings

def standard : CompilerSettings := ⟨.autoClose, standardSentinel⟩

def policyOfToml? (t : Toml) : Option Policy :=
  match t.variant? with
  | some "auto_close" => some .autoClose
  | some "strict" => some .strict
  | _ => none

def ofToml? (t : Toml) : Option CompilerSettings := do
  match ← t.record? ["parenthesis", "empty_set_sentinel"] with
  | [policy, sentinel] =>
    return {
      policy := ← optional? .autoClose policyOfToml? policy
      sentinel := ← optional? standardSentinel Toml.asInt? sentinel }
  | _ => none

end CompilerSettings

namespace DatabaseSettings

/-- Without a section there are no connections. -/
def standard : DatabaseSettings := ⟨none, 0⟩

/-- A number of connections fits an unsigned word of 32 bits. -/
def connectionsOfToml? (t : Toml) : Option Nat :=
  t.asInt?.bind fun n => if 0 ≤ n ∧ n < 0x100000000 then some n.toInt.toNat else none

/-- A table may leave out the address, an array may not; five connections are the rule. -/
def ofToml? (t : Toml) : Option DatabaseSettings := do
  match ← t.record? ["url", "max_connections"] with
  | [url, connections] =>
    return {
      url := ← match url, t with
        | none, .array _ => none
        | none, _ => some none
        | some url, _ => url.asText?.map some
      maxConnections := ← optional? 5 connectionsOfToml? connections }
  | _ => none

end DatabaseSettings

namespace Entity

/-- The types of fields by name. -/
def fieldsOfToml? (t : Toml) : Option (Sorted String DomainType) := do
  let es ← t.entries?
  let fs ← es.mapM fun e => e.2.asText?.map fun s => (e.1, DomainType.ofText s)
  return Sorted.ofList fs

def ofToml? (t : Toml) : Option Entity := do
  match ← t.record? ["table", "fields"] with
  | [table, fields] =>
    return {
      table := ← required? Toml.asText? table
      fields := ← optional? ∅ fieldsOfToml? fields }
  | _ => none

end Entity

/-- The entities by class. -/
def Catalog.ofToml? (t : Toml) : Option Catalog := do
  let es ← t.entries?
  let es ← es.mapM fun e => (Entity.ofToml? e.2).map (e.1, ·)
  return ⟨Sorted.ofList es⟩

namespace Settings

def standard : Settings := ⟨.standard, .standard, ∅⟩

/-- The settings of a file, with standard values for the sections that it leaves out. -/
def ofTable? (es : List (String × Toml)) : Option Settings := do
  return {
    compiler := ← optional? .standard CompilerSettings.ofToml? (es.lookup "compiler")
    database := ← optional? .standard DatabaseSettings.ofToml? (es.lookup "database")
    catalog := ← optional? ∅ Catalog.ofToml? (es.lookup "entities") }

example : ofTable? [] = some standard := rfl

/-- The settings that the text of a file describes. -/
def read (s : String) : Except Fault Settings :=
  match (Toml.read? s).bind ofTable? with
  | some settings => .ok settings
  | none => .error .malformedSettings

end Settings

end QueryCompiler
