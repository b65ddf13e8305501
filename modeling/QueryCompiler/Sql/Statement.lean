import QueryCompiler.Sql.Condition

/-!
# Statements

A request becomes a statement that gives the rows, or one that counts them. Both have the same
`body`: the tables with their joins, and the filter.
-/

namespace QueryCompiler.Compiler

/-! ## Tables -/

/-- The table behind a table index. -/
def tableName (k : Compiler) (r : Request) (table : Nat) : Except Fault String := do
  k.catalog.tableName (← r.classOf table)

/-- The further conditions of a join. -/
def linkConditions (k : Compiler) (r : Request) (link : Link) : Except Fault Sql :=
  if link.conditions.isEmpty then .ok []
  else do
    let q ← k.conditions r link.conditions
    return .words " AND (" :: q ++ [.words ")"]

/-- The line of one join. -/
def joinLine (k : Compiler) (r : Request) (table : Nat) (link : Link) : Except Fault Sql := do
  let name ← k.tableName r table
  let q ← k.linkConditions r link
  return [.words ("\n" ++ link.kind.keyword ++ " "), .table name table, .words " ON (",
    .column link.leftTable link.leftField, .words "=", .column table link.rightField] ++ q
    ++ [.words ")"]

/-- The lines of all joins, in the order of their tables. -/
def joinLines (k : Compiler) (r : Request) : List (Nat × Link) → Except Fault Sql
  | [] => .ok []
  | (table, link) :: es => do
    let q ← k.joinLine r table link
    let q' ← joinLines k r es
    return q ++ q'

/-- The tables of a request with their joins. -/
def source (k : Compiler) (r : Request) : Except Fault Sql := do
  let name ← k.tableName r 0
  let q ← k.joinLines r r.links.entries
  return [.words "FROM ", .table name 0] ++ q

/-! ## Statements -/

/-- The line of the filter, none if there is nothing to filter by. -/
def filterLine (k : Compiler) (r : Request) : Except Fault Sql :=
  if r.conditions.isEmpty then .ok []
  else do
    let q ← k.conditions r r.conditions
    return .words "\nWHERE " :: q

/-- The tables and the filter. -/
def body (k : Compiler) (r : Request) : Except Fault Sql := do
  let q ← k.source r
  let q' ← k.filterLine r
  return q ++ q'

/-- The selected fields, table by table. -/
def selected (r : Request) : List (Nat × String) :=
  r.fields.entries.flatMap fun e => e.2.map fun field => (e.1, field)

/-- A selected field under its output name. -/
def selectItem (table : Nat) (field : String) : Sql :=
  [.column table field, .words " AS ", .label table field]

/-- One key that rows are sorted by. -/
def orderItem (term : OrderTerm) : Sql :=
  let column := Piece.column term.table term.field
  let direction := Piece.words (" " ++ term.direction.keyword)
  match term.part with
  | some part => [.words (part.keyword ++ "("), column, .words ")", direction]
  | none => [column, direction]

/-- The line of the sort keys, none if there are none. -/
def orderLine (r : Request) : Sql :=
  if r.order.isEmpty then []
  else .words "\nORDER BY " :: Sql.separated "," (r.order.map orderItem)

/-- The line of the row range, none if there is no range. -/
def limitLine (r : Request) : Sql :=
  if r.lines = 0 ∧ r.offset = 0 then []
  else [.words s!"\nLIMIT {r.offset.toNat},{r.lines.toNat}"]

def distinctWords (r : Request) : Sql := if r.distinct then [.words "DISTINCT "] else []

/-- The statement that gives the rows. -/
def select (k : Compiler) (r : Request) : Except Fault Sql := do
  r.validate
  if (selected r).isEmpty then .error (.invalidValue .noFields)
  else do
    let q ← k.body r
    return .words "SELECT " :: distinctWords r
      ++ Sql.separated "," ((selected r).map fun s => selectItem s.1 s.2)
      ++ .words "\n" :: q ++ orderLine r ++ limitLine r

/-- The statement that counts the rows, in a column named `C`. -/
def count (k : Compiler) (r : Request) : Except Fault Sql := do
  r.validate
  let q ← k.body r
  return .words "SELECT COUNT(" :: distinctWords r ++ .column 0 "id" :: .words ") AS C\n" :: q

end QueryCompiler.Compiler
