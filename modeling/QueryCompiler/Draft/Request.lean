import QueryCompiler.Draft.Grouping
import QueryCompiler.Request.Validity

/-!
# Drafts

A `Draft` is a request as it is sent in JSON: tokens are texts, filters are node lists.
`toRequest` types it and checks that its tables hang together. Main statement:
`validate_of_toRequest` (what comes out is valid).
-/

namespace QueryCompiler

/-- A link as it is sent. -/
structure LinkDraft where
  kind : String
  leftTable : Nat
  leftField : String
  rightField : String
  conditions : List Node

/-- A sort key as it is sent. -/
structure OrderDraft where
  table : Nat
  field : String
  part : String
  direction : String

/-- A request as it is sent. -/
structure Draft where
  classes : List String
  fields : Ordered Nat (List String)
  links : Sorted Nat LinkDraft
  conditions : List Node
  order : List OrderDraft
  lines : UInt64
  offset : UInt64
  distinct : Bool
  aliases : Sorted String Nat

/-! ## Reading -/

open Json

/-- The names of a text-keyed map of tables. -/
def aliasesOfJson? (j : Json) : Option (Sorted String Nat) :=
  (j.asMembers? asNatural?).map Sorted.ofList

/-- Lists of names by table, in the order of the tables. -/
def fieldsOfJson? (j : Json) : Option (Ordered Nat (List String)) :=
  (j.asTables? (asList? asText?)).map Ordered.ofList

def LinkDraft.ofJson? (j : Json) : Option LinkDraft := do
  match ← j.record? ["joinType", "leftTableIndex", "leftTableField", "rightTableField",
      "conditions"] with
  | [kind, leftTable, leftField, rightField, conditions] =>
    return {
      kind := ← required? asText? kind
      leftTable := ← required? asNatural? leftTable
      leftField := ← required? asText? leftField
      rightField := ← required? asText? rightField
      conditions := ← optional? [] (asList? Node.ofJson?) conditions }
  | _ => none

def OrderDraft.ofJson? (j : Json) : Option OrderDraft := do
  match ← j.record? ["table", "field", "option", "direction"] with
  | [table, field, part, direction] =>
    return {
      table := ← required? asNatural? table
      field := ← required? asText? field
      part := ← optional? "" asText? part
      direction := ← optional? "" asText? direction }
  | _ => none

namespace Draft

/-- Every part of a draft may be left out. -/
def ofJson? (j : Json) : Option Draft := do
  match ← j.record? ["classes", "fields", "links", "conditions", "orderBy", "lines", "offset",
      "distinctLines", "index"] with
  | [classes, fields, links, conditions, order, lines, offset, distinct, aliases] =>
    return {
      classes := ← optional? [] (asList? asText?) classes
      fields := ← optional? ∅ fieldsOfJson? fields
      links := ← optional? ∅ (fun j => (j.asTables? LinkDraft.ofJson?).map Sorted.ofList) links
      conditions := ← optional? [] (asList? Node.ofJson?) conditions
      order := ← optional? [] (asList? OrderDraft.ofJson?) order
      lines := ← optional? 0 asWord? lines
      offset := ← optional? 0 asWord? offset
      distinct := ← optional? false asBool? distinct
      aliases := ← optional? ∅ aliasesOfJson? aliases }
  | _ => none

example : ofJson? (.object false []) = ofJson? (.array []) := rfl

/-- The draft that a text is. -/
def read (s : String) : Except Fault Draft :=
  match (Json.read? s).bind ofJson? with
  | some d => .ok d
  | none => .error .malformedRequest

end Draft

/-! ## Typing -/

def LinkDraft.toLink (policy : Policy) (aliases : Sorted String Nat) (d : LinkDraft) :
    Except Fault Link := do
  let kind ← JoinKind.read d.kind
  let conditions ← Predicate.ofNodes policy aliases d.conditions
  return ⟨kind, d.leftTable, d.leftField, d.rightField, conditions⟩

def OrderDraft.toTerm (d : OrderDraft) : Except Fault OrderTerm := do
  let part ← DatePart.read d.part
  let direction ← Direction.read d.direction
  return ⟨d.table, d.field, part, direction⟩

namespace Draft

/-- The request of a draft, not yet checked. -/
def typed (policy : Policy) (d : Draft) : Except Fault Request := do
  let links ← d.links.traverse fun _ link => link.toLink policy d.aliases
  let conditions ← Predicate.ofNodes policy d.aliases d.conditions
  let order ← d.order.mapM OrderDraft.toTerm
  return {
    classes := d.classes
    fields := d.fields
    links := links
    conditions := conditions
    order := order
    lines := d.lines
    offset := d.offset
    distinct := d.distinct
    aliases := d.aliases }

/-- The request of a draft, if it is valid. -/
def toRequest (policy : Policy) (d : Draft) : Except Fault Request := do
  let r ← d.typed policy
  r.validate
  return r

theorem validate_of_toRequest {policy : Policy} {d : Draft} {r : Request}
    (h : d.toRequest policy = .ok r) : r.validate = .ok () := by
  simp only [toRequest, bind, Except.bind] at h
  split at h
  · contradiction
  · split at h
    · contradiction
    · cases h
      assumption

end Draft

/-- The request that a text describes. -/
def Request.parse (policy : Policy) (s : String) : Except Fault Request := do
  let d ← Draft.read s
  d.toRequest policy

end QueryCompiler
