import QueryCompiler.Sql.Literal

/-!
# Statement texts in pieces

A statement is a list of pieces: fixed words, tables, columns, output names and literals. The
pieces say what the text is about; `toText` runs them together. Main statements:
`toText_append` and `columns_append`.
-/

namespace QueryCompiler

/-- A part of a statement. -/
inductive Piece
  | words (s : String)
  | table (name : String) (index : Nat)
  | column (table : Nat) (field : String)
  | label (table : Nat) (field : String)
  | literal (l : Literal)
deriving DecidableEq

/-- A column reference. -/
def columnText (table : Nat) (field : String) : String := s!"T{table}." ++ field

/-- The output name of a selected field. -/
def labelText (table : Nat) (field : String) : String := s!"T{table}_" ++ field

def Piece.text : Piece → String
  | words s => s
  | table name index => name ++ s!" T{index}"
  | column i field => columnText i field
  | label i field => labelText i field
  | literal l => l.text

/-- A statement, or a part of one. -/
abbrev Sql := List Piece

namespace Sql

/-- The text of some pieces. -/
def toText (q : Sql) : String := String.join (q.map Piece.text)

/-- The columns that occur in some pieces. -/
def columns (q : Sql) : List (Nat × String) :=
  q.filterMap fun
    | .column i field => some (i, field)
    | _ => none

/-- Some parts with fixed words between them. -/
def separated (s : String) (parts : List Sql) : Sql := List.intercalate [.words s] parts

theorem toText_append (q q' : Sql) : toText (q ++ q') = toText q ++ toText q' := by
  simp [toText]

theorem columns_append (q q' : Sql) : columns (q ++ q') = columns q ++ columns q' := by
  simp [columns]

end Sql

end QueryCompiler
