import QueryCompiler.Logged
import QueryCompiler.Sql.Statement

/-!
# Explanations

`Compiler.explain` describes a request line by line: its tables, its filters as trees, and both
statements. The lines before a failure are given all the same. Main statement:
`treeLines_append`.
-/

namespace QueryCompiler

/-! ## Trees -/

/-- A text with blanks in front up to a width. -/
def rightAligned (width : Nat) (s : String) : String :=
  String.ofList (List.replicate (width - s.length) ' ') ++ s

def blanks (n : Nat) : String := String.ofList (List.replicate n ' ')

/-- The connector column of a tree. -/
def connectorColumn (connector : Option Connector) : String :=
  rightAligned 3 ((connector.map Connector.keyword).getD "")

mutual

/-- The lines of a predicate at a depth of the tree. -/
def treeLinesOf (depth : Nat) : Predicate → List String
  | .comparison connector c =>
    [blanks (2 * depth) ++ connectorColumn connector ++ " " ++ c.toText]
  | .group connector children =>
    (blanks (2 * depth) ++ connectorColumn connector ++ " (") :: treeLines (depth + 1) children
      ++ [blanks (2 * depth) ++ "    )"]

/-- The lines of a sequence at a depth of the tree. -/
def treeLines (depth : Nat) : List Predicate → List String
  | [] => []
  | p :: ps => treeLinesOf depth p ++ treeLines depth ps

end

theorem treeLines_append (depth : Nat) (ps qs : List Predicate) :
    treeLines depth (ps ++ qs) = treeLines depth ps ++ treeLines depth qs := by
  induction ps with
  | nil => simp [treeLines]
  | cons p ps ih => simp [treeLines, ih]

/-! ## Tables -/

/-- How a table is joined; a table without a link is a root. -/
def roleText (r : Request) (table : Nat) : String :=
  match r.links.get? table with
  | some link =>
    link.kind.keyword ++ " on " ++ columnText link.leftTable link.leftField ++ "="
      ++ columnText table link.rightField
  | none => "root"

/-- The line of one table. -/
def tableLine (k : Compiler) (r : Request) (table : Nat) (name : String) :
    Except Fault String := do
  let stored ← k.catalog.tableName name
  return s!"  T{table} " ++ name ++ " (" ++ stored ++ ") " ++ roleText r table

/-- The lines of the tables from an index on. -/
def tableLines (k : Compiler) (r : Request) (table : Nat) : List String → Logged Fault Unit
  | [] => pure ()
  | name :: names => do
    let line ← .lift (tableLine k r table name)
    .write line
    tableLines k r (table + 1) names

/-! ## The whole -/

def writeAll : List String → Logged Fault Unit
  | [] => pure ()
  | line :: lines => do
    .write line
    writeAll lines

/-- A filter under a title, with an empty line in front; nothing if there is no filter. -/
def filterLines (title : String) (ps : List Predicate) : List String :=
  if ps.isEmpty then [] else "" :: title :: treeLines 1 ps

/-- A statement under a title, with an empty line in front. -/
def statementLines (title : String) (q : Except Fault Sql) : Logged Fault Unit := do
  .write ""
  .write title
  let q ← .lift q
  .write q.toText

/-- The description of a request. -/
def Compiler.explain (k : Compiler) (r : Request) : Logged Fault Unit := do
  .write "Request"
  tableLines k r 0 r.classes
  writeAll (filterLines "Conditions" r.conditions)
  writeAll (r.links.entries.flatMap fun e => filterLines s!"Join conditions T{e.1}" e.2.conditions)
  statementLines "SELECT" (k.select r)
  statementLines "COUNT" (k.count r)

end QueryCompiler
