import QueryCompiler.Request.Validity
import QueryCompiler.Sql.Piece

/-!
# Conditions

A comparison becomes a condition in three steps: its value an operand, operand and operator a
fragment, fragments with their connectors and brackets a condition. Main statements:
`conditions_cons` and `conditions_append`.
-/

namespace QueryCompiler

/-- The right-hand side of a comparison in a statement. -/
inductive Operand
  | none
  | single (q : Sql)
  | list (items : List Sql)
deriving DecidableEq

/-- What a compiler goes by: the catalog, and the value that stands for an empty list. -/
structure Compiler where
  catalog : Catalog
  sentinel : Int64

/-- A letter of ASCII or the low line. -/
def isIdentifierStart (c : Char) : Bool := c.isAlpha || c = '_'

/-- A name without need of quotes: letters of ASCII, digits and low lines, no digit in front. -/
def isIdentifier (s : String) : Bool :=
  match s.toList with
  | [] => false
  | c :: cs => isIdentifierStart c && cs.all fun c => isIdentifierStart c || c.isDigit

namespace Operand

/-- The one value that an operator compares with. -/
def single? (op : Operator) : Operand → Except Fault Sql
  | single q => .ok q
  | none => .error (.invalidValue (.valueRequired op))
  | list _ => .error (.invalidValue (.listRefused op))

/-- The list that an operator looks into. -/
def list? (op : Operator) : Operand → Except Fault (List Sql)
  | list items => .ok items
  | _ => .error (.invalidValue (.listRequired op))

end Operand

namespace Compiler

/-- The right-hand side of a comparison. A literal goes by the type of the field, an alias by the
request. -/
def operand (k : Compiler) (r : Request) (c : Comparison) : Except Fault Operand :=
  if c.operator.takesValue then
    match c.value with
    | .none => .ok .none
    | .literal s => do
      let name ← r.classOf c.table
      let type ← k.catalog.fieldType name c.field
      let l ← Literal.coerce type s
      return .single [.literal l]
    | .column aliasName field => do
      let table ← r.tableOf aliasName
      if isIdentifier field then return .single [.column table field]
      else .error (.invalidValue (.notIdentifier field))
    | .list items => do
      let ls ← items.mapM Literal.element
      return .list (ls.map fun l => [.literal l])
  else .ok .none

/-- What stands between the brackets of a list. The value that stands for an empty list is no value
of the request, so it is among the words. -/
def listBody (k : Compiler) (items : List Sql) : Sql :=
  if items = [] then [.words (toString k.sentinel.toInt)] else Sql.separated "," items

/-- A column with an operator and its right-hand side. -/
def fragment (k : Compiler) (column : Sql) (op : Operator) (operand : Operand) :
    Except Fault Sql :=
  match op with
  | .isNull | .isNotNull => .ok (column ++ [.words (" " ++ op.symbol)])
  | .greater | .less | .greaterEqual | .lessEqual | .equal | .notEqual => do
    let q ← operand.single? op
    return column ++ .words op.symbol :: q
  | .like => do
    let q ← operand.single? op
    return column ++ .words " LIKE " :: q
  | .likeAnyCase => do
    let q ← operand.single? op
    return .words "UPPER(" :: column ++ .words ") LIKE UPPER(" :: q ++ [.words ")"]
  | .isIn | .isNotIn => do
    let items ← operand.list? op
    return column ++ .words (" " ++ op.symbol ++ " (") :: k.listBody items ++ [.words ")"]

/-- The condition of one comparison. -/
def comparison (k : Compiler) (r : Request) (c : Comparison) : Except Fault Sql := do
  let operand ← k.operand r c
  k.fragment [.column c.table c.field] c.operator operand

/-- A connector between blanks. -/
def connectorSql : Option Connector → Sql
  | some c => [.words (" " ++ c.keyword ++ " ")]
  | none => []

mutual

/-- The condition of one predicate, its connector in front. -/
def condition (k : Compiler) (r : Request) : Predicate → Except Fault Sql
  | .comparison connector c => do
    let q ← k.comparison r c
    return connectorSql connector ++ q
  | .group connector children => do
    let q ← conditions k r children
    return connectorSql connector ++ .words "(" :: q ++ [.words ")"]

/-- The condition of a sequence of predicates. A connector in front of the first one is written
too. -/
def conditions (k : Compiler) (r : Request) : List Predicate → Except Fault Sql
  | [] => .ok []
  | p :: ps => do
    let q ← condition k r p
    let q' ← conditions k r ps
    return q ++ q'

end

theorem conditions_cons (k : Compiler) (r : Request) (p : Predicate) (ps : List Predicate) :
    k.conditions r (p :: ps)
      = (do return (← k.condition r p) ++ (← k.conditions r ps)) := by
  simp [conditions]

theorem conditions_append (k : Compiler) (r : Request) (ps qs : List Predicate) :
    k.conditions r (ps ++ qs)
      = (do return (← k.conditions r ps) ++ (← k.conditions r qs)) := by
  induction ps with
  | nil =>
    simp only [List.nil_append, conditions, bind, Except.bind, pure, Except.pure]
    cases k.conditions r qs <;> rfl
  | cons p ps ih =>
    simp only [List.cons_append, conditions, ih, bind, Except.bind, pure, Except.pure]
    cases k.condition r p <;> cases k.conditions r ps <;> cases k.conditions r qs <;>
      simp

end Compiler

end QueryCompiler
