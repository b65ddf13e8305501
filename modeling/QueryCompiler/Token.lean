import QueryCompiler.Text.Blank

/-!
# Tokens

The closed vocabularies of a request: connectors, sort directions, date parts, join kinds and
comparison operators, each with its spelling in a statement and the reading of that spelling.
Main statement: `Operator.ofText?_symbol` (a written operator is read back).
-/

namespace QueryCompiler

/-- What connects a predicate to the one before it. -/
inductive Connector
  | and
  | or
deriving DecidableEq, Repr

/-- The order of sorted rows. -/
inductive Direction
  | ascending
  | descending
deriving DecidableEq, Repr

/-- The part of a date that rows are sorted by. -/
inductive DatePart
  | day
  | month
  | year
deriving DecidableEq, Repr

/-- How the rows of two tables are joined. -/
inductive JoinKind
  | inner
  | left
deriving DecidableEq, Repr

/-- The comparison operators. -/
inductive Operator
  | isNull
  | isNotNull
  | greater
  | less
  | greaterEqual
  | lessEqual
  | equal
  | notEqual
  | like
  | likeAnyCase
  | isIn
  | isNotIn
deriving DecidableEq, Repr

open Text

namespace Connector

def keyword : Connector → String
  | and => "AND"
  | or => "OR"

/-- Case and surrounding blanks do not matter. -/
def ofText? (s : String) : Option Connector :=
  match Text.keyword s with
  | "AND" => some and
  | "OR" => some or
  | _ => none

end Connector

namespace Direction

def keyword : Direction → String
  | ascending => "ASC"
  | descending => "DESC"

/-- An empty text means ascending. -/
def ofText? (s : String) : Option Direction :=
  match Text.keyword s with
  | "" | "ASC" => some ascending
  | "DESC" => some descending
  | _ => none

end Direction

namespace DatePart

/-- The function that takes the part out of a date. -/
def keyword : DatePart → String
  | day => "DAY"
  | month => "MONTH"
  | year => "YEAR"

/-- An empty text and `NONE` stand for no part. -/
def ofText? (s : String) : Option (Option DatePart) :=
  match Text.keyword s with
  | "" | "NONE" => some none
  | "DAY" => some (some day)
  | "MONTH" => some (some month)
  | "YEAR" => some (some year)
  | _ => none

end DatePart

namespace JoinKind

def keyword : JoinKind → String
  | inner => "INNER JOIN"
  | left => "LEFT JOIN"

def ofText? (s : String) : Option JoinKind :=
  match Text.keyword s with
  | "INNER" | "INNER JOIN" => some inner
  | "LEFT" | "LEFT JOIN" => some left
  | _ => none

end JoinKind

namespace Operator

def symbol : Operator → String
  | isNull => "IS NULL"
  | isNotNull => "IS NOT NULL"
  | greater => ">"
  | less => "<"
  | greaterEqual => ">="
  | lessEqual => "<="
  | equal => "="
  | notEqual => "!="
  | like => "LIKE"
  | likeAnyCase => "ILIKE"
  | isIn => "IN"
  | isNotIn => "NOT IN"

/-- Case matters, surrounding blanks do not. -/
def ofText? (s : String) : Option Operator :=
  match trim s with
  | "IS NULL" => some isNull
  | "IS NOT NULL" => some isNotNull
  | ">" => some greater
  | "<" => some less
  | ">=" => some greaterEqual
  | "<=" => some lessEqual
  | "=" => some equal
  | "!=" => some notEqual
  | "LIKE" => some like
  | "ILIKE" | "LIKE_CI" => some likeAnyCase
  | "IN" => some isIn
  | "NOT IN" => some isNotIn
  | _ => none

/-- All but the tests for null compare with a value. -/
def takesValue : Operator → Bool
  | isNull | isNotNull => false
  | _ => true

/-- The operators whose value is a list. -/
def isMembership : Operator → Bool
  | isIn | isNotIn => true
  | _ => false

theorem ofText?_symbol (op : Operator) : ofText? op.symbol = some op := by
  cases op <;> decide

end Operator

end QueryCompiler
