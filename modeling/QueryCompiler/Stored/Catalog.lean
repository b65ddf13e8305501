import QueryCompiler.Catalog
import QueryCompiler.Json.Record

/-!
# Stored catalogs

How a catalog is kept in JSON: classes by name, each with its table and the names of the types of
its fields. Main statement: `DomainType.ofJson?_toJson`.
-/

namespace QueryCompiler

open Json

namespace DomainType

def toJson (t : DomainType) : Json := .text t.name

/-- Every text names a type. -/
def ofJson? (j : Json) : Option DomainType := j.asText?.map ofText

theorem ofJson?_toJson (t : DomainType) : ofJson? t.toJson = some t := by
  simp [ofJson?, toJson, asText?, ofText_name]

end DomainType

namespace Entity

def toJson (e : Entity) : Json :=
  .object false [("table", .text e.table),
    ("fields", .object false (e.fields.entries.map fun f => (f.1, f.2.toJson)))]

def fieldsOfJson? (j : Json) : Option (Sorted String DomainType) :=
  (j.asMembers? DomainType.ofJson?).map Sorted.ofList

def ofJson? (j : Json) : Option Entity := do
  match ← j.record? ["table", "fields"] with
  | [table, fields] =>
    return {
      table := ← required? asText? table
      fields := ← optional? ∅ fieldsOfJson? fields }
  | _ => none

example : ofJson? (.object false [("table", .text "users")]) = some ⟨"users", ∅⟩ := rfl

end Entity

namespace Catalog

def toJson (c : Catalog) : Json :=
  .object false (c.entities.entries.map fun e => (e.1, e.2.toJson))

def ofJson? (j : Json) : Option Catalog :=
  (j.asMembers? Entity.ofJson?).map fun es => ⟨Sorted.ofList es⟩

end Catalog

end QueryCompiler
