import QueryCompiler.Draft.Node

/-!
# Stored values

How tokens, scalars and values are kept in JSON. A token is its name, a value is tagged with its
kind, and a scalar is bare: what kind of scalar it was is seen from the JSON value alone, so that
a date-time comes back as a text. Main statements: `Operator.ofJson?_toJson` and
`Scalar.ofJson?_toJson_int`.
-/

namespace QueryCompiler

/-! ## Tokens -/

namespace Connector

def toJson : Connector → Json
  | and => .text "And"
  | or => .text "Or"

def ofJson? (j : Json) : Option Connector :=
  match j.unitVariant? with
  | some "And" => some and
  | some "Or" => some or
  | _ => none

/-- No connector is kept as null. -/
def optionToJson : Option Connector → Json
  | some c => c.toJson
  | none => .null

/-- Null and a field left out are no connector. -/
def optionOfJson? : Option Json → Option (Option Connector)
  | none | some .null => some none
  | some j => (ofJson? j).map some

theorem optionOfJson?_optionToJson (c : Option Connector) :
    optionOfJson? (some (optionToJson c)) = some c := by
  rcases c with _ | _ | _ <;> rfl

end Connector

namespace Direction

def toJson : Direction → Json
  | ascending => .text "Asc"
  | descending => .text "Desc"

def ofJson? (j : Json) : Option Direction :=
  match j.unitVariant? with
  | some "Asc" => some ascending
  | some "Desc" => some descending
  | _ => none

end Direction

namespace DatePart

def optionToJson : Option DatePart → Json
  | none => .text "None"
  | some day => .text "Day"
  | some month => .text "Month"
  | some year => .text "Year"

def optionOfJson? (j : Json) : Option (Option DatePart) :=
  match j.unitVariant? with
  | some "None" => some none
  | some "Day" => some (some day)
  | some "Month" => some (some month)
  | some "Year" => some (some year)
  | _ => none

end DatePart

namespace JoinKind

def toJson : JoinKind → Json
  | inner => .text "Inner"
  | left => .text "Left"

def ofJson? (j : Json) : Option JoinKind :=
  match j.unitVariant? with
  | some "Inner" => some inner
  | some "Left" => some left
  | _ => none

end JoinKind

namespace Operator

def storedName : Operator → String
  | isNull => "IsNull"
  | isNotNull => "IsNotNull"
  | greater => "Gt"
  | less => "Lt"
  | greaterEqual => "Gte"
  | lessEqual => "Lte"
  | equal => "Eq"
  | notEqual => "Ne"
  | like => "Like"
  | likeAnyCase => "ILike"
  | isIn => "In"
  | isNotIn => "NotIn"

def toJson (op : Operator) : Json := .text op.storedName

def ofJson? (j : Json) : Option Operator :=
  match j.unitVariant? with
  | some "IsNull" => some isNull
  | some "IsNotNull" => some isNotNull
  | some "Gt" => some greater
  | some "Lt" => some less
  | some "Gte" => some greaterEqual
  | some "Lte" => some lessEqual
  | some "Eq" => some equal
  | some "Ne" => some notEqual
  | some "Like" => some like
  | some "ILike" => some likeAnyCase
  | some "In" => some isIn
  | some "NotIn" => some isNotIn
  | _ => none

theorem ofJson?_toJson (op : Operator) : ofJson? op.toJson = some op := by
  cases op <;> rfl

end Operator

/-! ## Values -/

namespace Scalar

/-- A scalar without a tag. A float that is no number has no JSON value but null. -/
def toJson : Scalar → Json
  | bool b => .bool b
  | int n => .int n.toInt
  | float x => if (Decimal.Binary.ofFloat x).isFinite then .float x else .null
  | text s => .text s
  | dateTime t => .text t.storedText

def ofJson? (j : Json) : Option Scalar := (ofJson j).toOption

theorem ofJson?_toJson_int (n : Int64) : ofJson? (int n).toJson = some (int n) := by
  simp [ofJson?, toJson, ofJson_int, Except.toOption]

end Scalar

namespace Value

def toJson : Value → Json
  | none => .text "None"
  | literal s => .object false [("Literal", s.toJson)]
  | column aliasName field =>
    .object false [("Column", .object false [("alias", .text aliasName), ("field", .text field)])]
  | list items => .object false [("List", .array (items.map Scalar.toJson))]

def ofJson? (j : Json) : Option Value :=
  match j.variant? with
  | some ("None", .none) | some ("None", some .null) => some none
  | some ("Literal", some body) => (Scalar.ofJson? body).map literal
  | some ("Column", some body) => do
    match ← body.record? ["alias", "field"] with
    | [aliasName, field] =>
      return column (← Json.required? Json.asText? aliasName) (← Json.required? Json.asText? field)
    | _ => failure
  | some ("List", some body) => (body.asList? Scalar.ofJson?).map list
  | _ => failure

end Value

end QueryCompiler
