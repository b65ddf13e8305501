import QueryCompiler.Fault
import QueryCompiler.Json.Reader
import QueryCompiler.Json.Record
import QueryCompiler.Predicate
import QueryCompiler.Word

/-!
# Nodes of a draft

In a draft a filter is a flat list of nodes. A node is a comparison in plain texts and an untyped
value, with marks for brackets that open or close at it. Main statements:
`Value.ofJson_column` (a pair of texts whose first is an alias is a column) and
`Scalar.ofJson_int`.
-/

namespace QueryCompiler

/-- A comparison as it is sent, with the marks of brackets. -/
structure Node where
  table : Nat
  field : String
  operator : String
  value : Json
  opens : Bool
  closes : Bool
  connector : String

namespace Node

/-- Every part of a node may be left out. -/
def ofJson? (j : Json) : Option Node := do
  match ← j.record? ["table", "field", "operator", "value", "open", "close", "logic"] with
  | [table, field, operator, value, opens, closes, connector] =>
    return {
      table := ← Json.optional? 0 Json.asNatural? table
      field := ← Json.optional? "" Json.asText? field
      operator := ← Json.optional? "" Json.asText? operator
      value := ← Json.optional? .null Json.canonical? value
      opens := ← Json.optional? false Json.asBool? opens
      closes := ← Json.optional? false Json.asBool? closes
      connector := ← Json.optional? "" Json.asText? connector }
  | _ => none

/-- The nodes that a text lists. -/
def readAll (s : String) : Except Fault (List Node) :=
  match (Json.read? s).bind (Json.asList? ofJson?) with
  | some nodes => .ok nodes
  | none => .error .malformedRequest

end Node

/-! ## Typing of values -/

/-- A single value. An integer beyond a signed word becomes a float. -/
def Scalar.ofJson (j : Json) : Except Fault Scalar :=
  match j with
  | .bool b => .ok (.bool b)
  | .int n => .ok (((word? n).map int).getD (.float (Float.ofInt n)))
  | .float x => .ok (.float x)
  | .text s => .ok (.text s)
  | j => .error (.invalidValue (.notScalar j))

/-- A value by its form: null and false are no value, a pair of texts whose first one is an alias
is a column, any other array is a list. -/
def Value.ofJson (aliases : Sorted String Nat) (j : Json) : Except Fault Value :=
  match j with
  | .null | .bool false => .ok .none
  | .array [.text aliasName, .text field] =>
    if aliases.contains aliasName then .ok (.column aliasName field)
    else .ok (.list [.text aliasName, .text field])
  | .array items => .list <$> items.mapM Scalar.ofJson
  | j => .literal <$> Scalar.ofJson j

/-- The value that a text is. -/
def Value.read (aliases : Sorted String Nat) (s : String) : Except Fault Value :=
  match (Json.read? s).bind Json.canonical? with
  | some j => Value.ofJson aliases j
  | .none => .error .malformedRequest

theorem Value.ofJson_column {aliases : Sorted String Nat} {aliasName : String} (field : String)
    (h : aliases.contains aliasName = true) :
    Value.ofJson aliases (.array [.text aliasName, .text field]) = .ok (.column aliasName field) := by
  simp [Value.ofJson, h]

theorem Scalar.ofJson_int (w : Int64) : Scalar.ofJson (.int w.toInt) = .ok (.int w) := by
  simp [Scalar.ofJson, word?_toInt]

/-- The comparison of a node; an operator without a value drops the one that is sent. -/
def Node.comparison (aliases : Sorted String Nat) (node : Node) : Except Fault Comparison := do
  let operator ← Operator.read node.operator
  let value ← if operator.takesValue then Value.ofJson aliases node.value else .ok .none
  return ⟨node.table, node.field, operator, value⟩

end QueryCompiler
