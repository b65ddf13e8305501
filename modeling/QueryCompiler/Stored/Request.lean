import QueryCompiler.Request.Basic
import QueryCompiler.Stored.Value

/-!
# Stored requests

How whole requests are kept in JSON: `toJson` writes every part, and `ofJson?` wants every part.
Main statement: `OrderTerm.ofJson?_toJson`.
-/

namespace QueryCompiler

open Json

/-! ## Predicates -/

namespace Comparison

def toJson (c : Comparison) : Json :=
  .object false [("table", .int c.table), ("field", .text c.field), ("op", c.operator.toJson),
    ("value", c.value.toJson)]

def ofJson? (j : Json) : Option Comparison := do
  match ← j.record? ["table", "field", "op", "value"] with
  | [table, field, operator, value] =>
    return {
      table := ← required? asNatural? table
      field := ← required? asText? field
      operator := ← required? Operator.ofJson? operator
      value := ← required? Value.ofJson? value }
  | _ => none

end Comparison

namespace Predicate

mutual

def toJson : Predicate → Json
  | comparison connector c =>
    .object false [("Comparison", .object false
      [("logic", Connector.optionToJson connector), ("comparison", c.toJson)])]
  | group connector children =>
    .object false [("Group", .object false
      [("logic", Connector.optionToJson connector), ("children", .array (listToJson children))])]

def listToJson : List Predicate → List Json
  | [] => []
  | p :: ps => toJson p :: listToJson ps

end

/-- The parts of a stored comparison. -/
def comparisonOfJson? (j : Json) : Option Predicate := do
  match ← j.record? ["logic", "comparison"] with
  | [connector, c] =>
    return comparison (← Connector.optionOfJson? connector) (← required? Comparison.ofJson? c)
  | _ => none

mutual

def ofJson? : Json → Option Predicate
  | .object _ [(tag, body)] => ofVariant? tag body
  | _ => none

/-- The predicate of a tag and what it carries: an object, or an array of both parts. -/
def ofVariant? (tag : String) : Json → Option Predicate
  | .object escaped members =>
    if tag = "Comparison" then comparisonOfJson? (.object escaped members)
    else if tag = "Group" then do
      let connector ← Connector.optionOfJson? (← member? "logic" members)
      let _ ← member? "children" members
      return group connector (← ofMembers? members)
    else none
  | .array [connector, children] =>
    if tag = "Comparison" then comparisonOfJson? (.array [connector, children])
    else if tag = "Group" then do
      let connector ← Connector.optionOfJson? (some connector)
      return group connector (← ofArray? children)
    else none
  | _ => none

/-- The children among the members of a group. -/
def ofMembers? : List (String × Json) → Option (List Predicate)
  | [] => none
  | (name, j) :: ms => if name = "children" then ofArray? j else ofMembers? ms

def ofArray? : Json → Option (List Predicate)
  | .array items => ofItems? items
  | _ => none

def ofItems? : List Json → Option (List Predicate)
  | [] => some []
  | j :: js => do
    let p ← ofJson? j
    let ps ← ofItems? js
    return p :: ps

end

end Predicate

/-! ## Links and sort keys -/

namespace Link

def toJson (l : Link) : Json :=
  .object false [("join_type", l.kind.toJson), ("left_table_index", .int l.leftTable),
    ("left_table_field", .text l.leftField), ("right_table_field", .text l.rightField),
    ("conditions", .array (Predicate.listToJson l.conditions))]

def ofJson? (j : Json) : Option Link := do
  match ← j.record? ["join_type", "left_table_index", "left_table_field", "right_table_field",
      "conditions"] with
  | [kind, leftTable, leftField, rightField, conditions] =>
    return {
      kind := ← required? JoinKind.ofJson? kind
      leftTable := ← required? asNatural? leftTable
      leftField := ← required? asText? leftField
      rightField := ← required? asText? rightField
      conditions := ← required? Predicate.ofArray? conditions }
  | _ => none

end Link

namespace OrderTerm

def toJson (o : OrderTerm) : Json :=
  .object false [("table", .int o.table), ("field", .text o.field),
    ("option", DatePart.optionToJson o.part), ("direction", o.direction.toJson)]

def ofJson? (j : Json) : Option OrderTerm := do
  match ← j.record? ["table", "field", "option", "direction"] with
  | [table, field, part, direction] =>
    return {
      table := ← required? asNatural? table
      field := ← required? asText? field
      part := ← required? DatePart.optionOfJson? part
      direction := ← required? Direction.ofJson? direction }
  | _ => none

theorem ofJson?_toJson (o : OrderTerm) : ofJson? o.toJson = some o := by
  rcases o with ⟨table, field, _ | _ | _ | _, _ | _⟩ <;>
    simp [ofJson?, toJson, record?, member?, required?, asNatural?, asText?, DatePart.optionToJson,
      Direction.toJson, DatePart.optionOfJson?, Direction.ofJson?, unitVariant?, variant?]

end OrderTerm

/-! ## Requests -/

namespace Request

def toJson (r : Request) : Json :=
  .object false [
    ("classes", .array (r.classes.map Json.text)),
    ("fields", .object false (r.fields.entries.map fun e =>
      (toString e.1, .array (e.2.map Json.text)))),
    ("links", .object false (r.links.entries.map fun e => (toString e.1, e.2.toJson))),
    ("conditions", .array (Predicate.listToJson r.conditions)),
    ("order_by", .array (r.order.map OrderTerm.toJson)),
    ("lines", .int r.lines.toNat),
    ("offset", .int r.offset.toNat),
    ("distinct_lines", .bool r.distinct),
    ("index", .object false (r.aliases.entries.map fun e => (e.1, .int e.2)))]

def ofJson? (j : Json) : Option Request := do
  match ← j.record? ["classes", "fields", "links", "conditions", "order_by", "lines", "offset",
      "distinct_lines", "index"] with
  | [classes, fields, links, conditions, order, lines, offset, distinct, aliases] =>
    return {
      classes := ← required? (asList? asText?) classes
      fields := ← required? (fun j => (j.asTables? (asList? asText?)).map Ordered.ofList) fields
      links := ← required? (fun j => (j.asTables? Link.ofJson?).map Sorted.ofList) links
      conditions := ← required? Predicate.ofArray? conditions
      order := ← required? (asList? OrderTerm.ofJson?) order
      lines := ← required? asWord? lines
      offset := ← required? asWord? offset
      distinct := ← required? asBool? distinct
      aliases := ← required? (fun j => (j.asMembers? asNatural?).map Sorted.ofList) aliases }
  | _ => none

/-- The request that a stored text holds, not checked. -/
def readStored (s : String) : Except Fault Request :=
  match (Json.read? s).bind ofJson? with
  | some r => .ok r
  | none => .error .malformedRequest

end Request

end QueryCompiler
