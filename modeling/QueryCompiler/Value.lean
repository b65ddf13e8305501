import QueryCompiler.Scalar
import QueryCompiler.Text.Shown

/-!
# Comparison values

What a field is compared with: nothing, a literal, a column of another table, or a list.
-/

namespace QueryCompiler

open Text

/-- The right-hand side of a comparison. A column is named by the alias of its table. -/
inductive Value
  | none
  | literal (s : Scalar)
  | column (aliasName field : String)
  | list (items : List Scalar)
deriving DecidableEq

namespace Value

/-- A value for the reader: texts in quotes, columns as they are named. -/
def toText : Value → String
  | none => "-"
  | literal s => shown s.toText
  | column aliasName field => aliasName ++ "." ++ field
  | list items => "[" ++ ", ".intercalate (items.map fun s => shown s.toText) ++ "]"

end Value

end QueryCompiler
