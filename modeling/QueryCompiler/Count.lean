import QueryCompiler.Draft.Node
import QueryCompiler.Logged
import QueryCompiler.Sql.Statement

/-!
# Counting rows

`Compiler.runCount` asks a source of rows for the answer to the count statement and reads the one
cell that holds it. The log is what the source was asked. Main statements: `runCount_of_error`
(nothing is asked if the statement cannot be written) and `runCount_of_ok` (else one statement
is).
-/

namespace QueryCompiler

/-- A row by column name. -/
abbrev Row := Sorted String Json

/-- Anything that answers a statement with rows. -/
abbrev RowSource := String → Except Fault (List Row)

namespace Row

def ofJson? (j : Json) : Option Row :=
  (j.asMembers? Json.canonical?).map Sorted.ofList

/-- The rows that a text lists. -/
def readAll (s : String) : Except Fault (List Row) :=
  match (Json.read? s).bind (Json.asList? ofJson?) with
  | some rows => .ok rows
  | none => .error .malformedRequest

end Row

/-- The integer of a word in a cell: a number, or a text of digits between blanks. -/
def cellInteger? : Json → Option Int64
  | .int n => word? n
  | .text s => (Decimal.integer? (Text.trim s).toList).bind word?
  | _ => none

/-- The count that rows give: column `C` of the first one. -/
def countOf (rows : List Row) : Except Fault Int64 :=
  match rows with
  | [] => .error (.invalidValue .noRows)
  | row :: _ =>
    match row.get? "C" with
    | none => .error (.invalidValue .noCountColumn)
    | some cell =>
      match cellInteger? cell with
      | some n => .ok n
      | none => .error (.invalidValue (.notCount cell))

/-- Asks a source one statement. -/
def ask (source : RowSource) (statement : String) : Logged Fault (List Row) :=
  ⟨[statement], source statement⟩

/-- The number of rows of a request. -/
def Compiler.runCount (k : Compiler) (source : RowSource) (r : Request) : Logged Fault Int64 := do
  let q ← .lift (k.count r)
  let rows ← ask source q.toText
  .lift (countOf rows)

theorem Compiler.runCount_of_error {k : Compiler} {r : Request} {e : Fault} (source : RowSource)
    (h : k.count r = .error e) : k.runCount source r = ⟨[], .error e⟩ := by
  rw [runCount, h]
  rfl

theorem Compiler.runCount_of_ok {k : Compiler} {r : Request} {q : Sql} (source : RowSource)
    (h : k.count r = .ok q) :
    k.runCount source r = ⟨[q.toText], (source q.toText).bind countOf⟩ := by
  rw [runCount, h]
  cases hs : source q.toText <;>
    simp [Logged.lift, Bind.bind, Logged.bind, ask, hs, Except.bind]

end QueryCompiler
