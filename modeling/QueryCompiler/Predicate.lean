import QueryCompiler.Token
import QueryCompiler.Value

/-!
# Predicates

A filter is a sequence of comparisons and groups, each with the connector to what stands before
it. `comparisons` lists the comparisons of a sequence, depth first.
-/

namespace QueryCompiler

/-- A field of a table compared with a value. -/
structure Comparison where
  table : Nat
  field : String
  operator : Operator
  value : Value
deriving DecidableEq

/-- A comparison for the reader. -/
def Comparison.toText (c : Comparison) : String :=
  s!"T{c.table}." ++ c.field ++ " " ++ c.operator.symbol ++ " " ++ c.value.toText

/-- A comparison or a group in brackets, with its connector. -/
inductive Predicate
  | comparison (connector : Option Connector) (comparison : Comparison)
  | group (connector : Option Connector) (children : List Predicate)

namespace Predicate

def connector : Predicate → Option Connector
  | comparison connector _ => connector
  | group connector _ => connector

mutual

/-- The comparisons of a predicate, depth first. -/
def comparisonsOf : Predicate → List Comparison
  | comparison _ c => [c]
  | group _ children => comparisons children

/-- The comparisons of a sequence, depth first. -/
def comparisons : List Predicate → List Comparison
  | [] => []
  | p :: ps => comparisonsOf p ++ comparisons ps

end

end Predicate

end QueryCompiler
