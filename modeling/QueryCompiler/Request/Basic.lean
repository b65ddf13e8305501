import QueryCompiler.Keyed.Ordered
import QueryCompiler.Keyed.Sorted
import QueryCompiler.Predicate

/-!
# Requests

A `Request` asks for fields of joined tables. Table 0 is the root; a link joins each further
table to an earlier one. The calls `new`, `join`, `select`, `filter`, `sort`, `limit` and
`distinctRows` build a request step by step. Main statements: `join_classes` and `get?_select`.
-/

namespace QueryCompiler

/-- How a table is joined: the fields that meet, and further conditions. -/
structure Link where
  kind : JoinKind
  leftTable : Nat
  leftField : String
  rightField : String
  conditions : List Predicate

/-- One key that rows are sorted by. -/
structure OrderTerm where
  table : Nat
  field : String
  part : Option DatePart
  direction : Direction
deriving DecidableEq

/-- A query over joined tables. Tables are counted from the root, which is table 0, and `aliases`
are names for them. No line limit and no offset are both written 0. -/
structure Request where
  classes : List String
  fields : Ordered Nat (List String)
  links : Sorted Nat Link
  conditions : List Predicate
  order : List OrderTerm
  lines : UInt64
  offset : UInt64
  distinct : Bool
  aliases : Sorted String Nat

namespace Request

/-- A request for nothing, without even a root. -/
def empty : Request := ⟨[], ∅, ∅, [], [], 0, 0, false, ∅⟩

/-! ## Building -/

/-- A request with a root table alone. -/
def new (name aliasName : String) : Request :=
  { empty with classes := [name], aliases := (∅ : Sorted String Nat).insert aliasName 0 }

/-- Joins one more table, whose index is the number of tables so far. -/
def join (r : Request) (name aliasName : String) (link : Link) : Request :=
  { r with
    classes := r.classes ++ [name]
    aliases := r.aliases.insert aliasName r.classes.length
    links := r.links.insert r.classes.length link }

/-- Selects further fields of a table. -/
def select (r : Request) (table : Nat) (names : List String) : Request :=
  { r with fields := r.fields.update table fun old => old.getD [] ++ names }

/-- Adds a predicate to the filter. -/
def filter (r : Request) (p : Predicate) : Request := { r with conditions := r.conditions ++ [p] }

/-- Adds a key that rows are sorted by. -/
def sort (r : Request) (term : OrderTerm) : Request := { r with order := r.order ++ [term] }

/-- Sets the range of rows. -/
def limit (r : Request) (offset lines : UInt64) : Request :=
  { r with offset := offset, lines := lines }

/-- Whether equal rows are given once. -/
def distinctRows (r : Request) (on : Bool) : Request := { r with distinct := on }

/-- The index of the table that the next join adds. -/
def nextTable (r : Request) : Nat := r.classes.length

theorem join_classes (r : Request) (name aliasName : String) (link : Link) :
    (r.join name aliasName link).classes[r.nextTable]? = some name := by
  simp [join, nextTable]

theorem get?_select (r : Request) (table table' : Nat) (names : List String) :
    (r.select table names).fields.get? table'
      = if table' = table then some ((r.fields.get? table).getD [] ++ names)
        else r.fields.get? table' :=
  Ordered.get?_update ..

/-! ## Single parts -/

def addClass (r : Request) (name : String) : Request := { r with classes := r.classes ++ [name] }

/-- The request without its last class, and that class. -/
def popClass (r : Request) : Request × Option String :=
  ({ r with classes := r.classes.dropLast }, r.classes.getLast?)

def setLink (r : Request) (table : Nat) (link : Link) : Request :=
  { r with links := r.links.insert table link }

def removeLink (r : Request) (table : Nat) : Request := { r with links := r.links.erase table }

def setAlias (r : Request) (aliasName : String) (table : Nat) : Request :=
  { r with aliases := r.aliases.insert aliasName table }

def removeAlias (r : Request) (aliasName : String) : Request :=
  { r with aliases := r.aliases.erase aliasName }

def clearFields (r : Request) : Request := { r with fields := ∅ }

def clearLinks (r : Request) : Request := { r with links := ∅ }

def clearConditions (r : Request) : Request := { r with conditions := [] }

def clearOrder (r : Request) : Request := { r with order := [] }

def clearAliases (r : Request) : Request := { r with aliases := ∅ }

end Request

end QueryCompiler
