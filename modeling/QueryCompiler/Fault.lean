import QueryCompiler.Token
import QueryCompiler.Json.Basic
import QueryCompiler.Decimal.Layout

/-!
# Faults

Why a request is refused. Each cause is a constructor, and the functions named `message` are the
one place where causes are worded. Tokens are read here too, each with the fault of a text that
is none. Main statements: `Operator.read_eq_ok_iff` and `Connector.readOptional_of_blank`.
-/

namespace QueryCompiler

/-- What is wrong with the brackets of a filter. -/
inductive Imbalance
  | neverOpened
  | leftOpen (groups : Nat)
deriving DecidableEq, Repr

/-- Where a request refers to a table. -/
inductive Usage
  | joinCondition
  | columnReference
  | selectedField
  | condition
  | orderClause
deriving DecidableEq, Repr

/-- What is wrong with a table index. -/
inductive TableFault
  | noClass
  | noRootClass
  | linkedRoot
  | linkWithoutClass
  | notEarlier (link : Nat)
  | usedWithoutClass (usage : Usage)
  | usedWithoutLink (usage : Usage)
  | usedTooEarly (usage : Usage) (link : Nat)
  | aliasWithoutClass (aliasName : String)
deriving DecidableEq, Repr

/-- What is wrong with a value. -/
inductive ValueFault
  | unknownAlias (aliasName : String)
  | emptyGroup
  | noFields
  | notIdentifier (field : String)
  | valueRequired (operator : Operator)
  | listRefused (operator : Operator)
  | listRequired (operator : Operator)
  | notFinite (x : Float)
  | dateTimeAsFloat
  | notScalar (json : Json)
  | unknownDirection (text : String)
  | noRows
  | noCountColumn
  | notCount (json : Json)

/-- Why a request is refused. -/
inductive Fault
  | unknownJoin (text : String)
  | unknownOperator (text : String)
  | unbalanced (position : Nat) (cause : Imbalance)
  | unknownConnector (text : String)
  | unknownDatePart (text : String)
  | invalidValue (cause : ValueFault)
  | unknownTable (table : Nat) (cause : TableFault)
  | unknownClass (name : String)
  | malformedRequest
  | malformedSettings
  | noConnection
  | execution (text : String)
  | unreadableFile

namespace Imbalance

def message : Imbalance → String
  | neverOpened => "cannot close a group that was never opened"
  | leftOpen groups => s!"{groups} group(s) left open"

end Imbalance

namespace Usage

def message : Usage → String
  | joinCondition => "join condition"
  | columnReference => "column reference"
  | selectedField => "selected field"
  | condition => "condition"
  | orderClause => "order clause"

end Usage

namespace TableFault

def message : TableFault → String
  | noClass => "no class at this index"
  | noRootClass => "request has no root class"
  | linkedRoot => "root table cannot have a join descriptor"
  | linkWithoutClass => "join descriptor has no class"
  | notEarlier link => s!"join of T{link} must reference an earlier joined table"
  | usedWithoutClass usage => usage.message ++ " refers to a table with no class"
  | usedWithoutLink usage => usage.message ++ " refers to a table with no join descriptor"
  | usedTooEarly usage link =>
    usage.message ++ s!" in the join of T{link} refers to a later table"
  | aliasWithoutClass aliasName => "alias '" ++ aliasName ++ "' refers to a table with no class"

end TableFault

namespace ValueFault

def message : ValueFault → String
  | unknownAlias aliasName => "unknown table alias '" ++ aliasName ++ "'"
  | emptyGroup => "empty predicate group"
  | noFields => "no fields selected"
  | notIdentifier field => "column reference field '" ++ field ++ "' is not an identifier"
  | valueRequired operator => "operator " ++ operator.symbol ++ " requires a value"
  | listRefused operator => "operator " ++ operator.symbol ++ " does not accept a list"
  | listRequired operator => "operator " ++ operator.symbol ++ " requires a list of values"
  | notFinite x => "float literal must be finite, got " ++ Decimal.plain.text x
  | dateTimeAsFloat => "a date-time cannot be used as a Float"
  | notScalar json => "expected a scalar, got " ++ json.compact
  | unknownDirection text => "sort direction must be ASC or DESC, got '" ++ text ++ "'"
  | noRows => "count query returned no rows"
  | noCountColumn => "count query has no column 'C'"
  | notCount json => "count is not an integer: " ++ json.compact

end ValueFault

namespace Fault

/-- The wording of a fault. -/
def message : Fault → String
  | unknownJoin text => "Unknown join type: '" ++ text ++ "'. Expected: INNER or LEFT"
  | unknownOperator text => "Unsupported operator: '" ++ text ++ "'"
  | unbalanced position cause =>
    s!"Unbalanced parenthesis at predicate {position}: " ++ cause.message
  | unknownConnector text =>
    "Unknown logical connector: '" ++ text ++ "'. Expected: AND, OR or empty"
  | unknownDatePart text => "Unknown order option: '" ++ text ++ "'"
  | invalidValue cause => "Invalid value: " ++ cause.message
  | unknownTable table cause => s!"Unknown table T{table}: " ++ cause.message
  | unknownClass name => "Unknown class: '" ++ name ++ "'"
  | malformedRequest => "Request error"
  | malformedSettings => "Configuration error"
  | noConnection => "Connection error"
  | execution text => "Execution error: " ++ text
  | unreadableFile => "IO error"

end Fault

/-! ## Tokens or their faults -/

namespace Connector

/-- A connector or the fault of what is none. -/
def read (s : String) : Except Fault Connector :=
  match ofText? s with
  | some c => .ok c
  | none => .error (.unknownConnector s)

/-- A blank text is no connector. -/
def readOptional (s : String) : Except Fault (Option Connector) :=
  if Text.trim s = "" then .ok none else some <$> read s

end Connector

def Direction.read (s : String) : Except Fault Direction :=
  match ofText? s with
  | some d => .ok d
  | none => .error (.invalidValue (.unknownDirection s))

def DatePart.read (s : String) : Except Fault (Option DatePart) :=
  match ofText? s with
  | some p => .ok p
  | none => .error (.unknownDatePart s)

def JoinKind.read (s : String) : Except Fault JoinKind :=
  match ofText? s with
  | some k => .ok k
  | none => .error (.unknownJoin s)

def Operator.read (s : String) : Except Fault Operator :=
  match ofText? s with
  | some op => .ok op
  | none => .error (.unknownOperator s)

theorem Operator.read_eq_ok_iff {s : String} {op : Operator} :
    read s = .ok op ↔ ofText? s = some op := by
  unfold read
  split <;> simp_all

theorem Connector.readOptional_of_blank {s : String} (h : Text.trim s = "") :
    readOptional s = .ok none := by
  rw [readOptional, if_pos h]

end QueryCompiler
