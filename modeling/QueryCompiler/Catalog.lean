import QueryCompiler.Fault
import QueryCompiler.Keyed.Sorted

/-!
# Catalogs

A `Catalog` knows the table behind each class and the declared type of its fields. Main
statements: `DomainType.ofText_name` (a type is read back from its name), `tableName_entity` and
`fieldType_add`.
-/

namespace QueryCompiler

/-- The declared type of a field, which leads the writing of literals. -/
inductive DomainType
  | string
  | json
  | integer
  | timestamp
  | float
  | dateTime
  | other
deriving DecidableEq, Repr

namespace DomainType

def name : DomainType → String
  | string => "String"
  | json => "JSON"
  | integer => "Integer"
  | timestamp => "Timestamp"
  | float => "Float"
  | dateTime => "DateTime"
  | other => "Other"

/-- Case and surrounding blanks do not matter; an unknown name is some other type. -/
def ofText (s : String) : DomainType :=
  match Text.caseless s with
  | "string" | "text" => string
  | "json" => json
  | "integer" | "int" => integer
  | "timestamp" => timestamp
  | "float" | "double" => float
  | "datetime" => dateTime
  | _ => other

theorem ofText_name (t : DomainType) : ofText t.name = t := by
  cases t <;> decide

end DomainType

/-- A table and the types of its fields. -/
structure Entity where
  table : String
  fields : Sorted String DomainType
deriving DecidableEq

/-- The entities by class. -/
structure Catalog where
  entities : Sorted String Entity
deriving DecidableEq

namespace Catalog

def empty : Catalog := ⟨∅⟩

instance : EmptyCollection Catalog := ⟨empty⟩

/-- Registers a class with its whole definition. -/
def add (c : Catalog) (name : String) (entity : Entity) : Catalog :=
  ⟨c.entities.insert name entity⟩

/-- Registers a class with a table and no fields. -/
def entity (c : Catalog) (name table : String) : Catalog := c.add name ⟨table, ∅⟩

/-- Declares a field; without effect on a class that is not registered. -/
def field (c : Catalog) (name field : String) (type : DomainType) : Catalog :=
  match c.entities.get? name with
  | some e => c.add name { e with fields := e.fields.insert field type }
  | none => c

def size (c : Catalog) : Nat := c.entities.size

def isEmpty (c : Catalog) : Bool := c.entities.isEmpty

/-- The definition of a class. -/
def find (c : Catalog) (name : String) : Except Fault Entity :=
  match c.entities.get? name with
  | some e => .ok e
  | none => .error (.unknownClass name)

/-- The table behind a class. -/
def tableName (c : Catalog) (name : String) : Except Fault String := Entity.table <$> c.find name

/-- The type of a field; a field that is not declared has some other type. -/
def fieldType (c : Catalog) (name field : String) : Except Fault DomainType :=
  (fun e => (e.fields.get? field).getD .other) <$> c.find name

theorem find_add (c : Catalog) (name name' : String) (e : Entity) :
    (c.add name e).find name' = if name' = name then .ok e else c.find name' := by
  by_cases h : name' = name <;> simp [find, add, Sorted.get?_insert, h]

theorem tableName_entity (c : Catalog) (name table : String) :
    (c.entity name table).tableName name = .ok table := by
  simp [tableName, entity, find_add, Functor.map, Except.map]

theorem fieldType_add (c : Catalog) (name field : String) (e : Entity) :
    (c.add name e).fieldType name field = .ok ((e.fields.get? field).getD .other) := by
  simp [fieldType, find_add, Functor.map, Except.map]

end Catalog

end QueryCompiler
