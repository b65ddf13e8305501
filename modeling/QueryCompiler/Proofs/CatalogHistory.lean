import Mathlib.Data.List.DropRight
import Mathlib.Data.List.Induction
import QueryCompiler.Proofs.Stored.CatalogText

/-!
# Catalogs by their history

A catalog is changed step by step: a class is registered with a table or with a whole definition,
or a field of it is declared. What the catalog answers can be told from the steps alone. The last
registration of a class counts, and the fields declared since; what was declared earlier is gone,
and a declaration for a class without a registration never counts.

1. `registration?_concat`, `declared?_concat`: what one more step changes in the history.
2. `Reflects.apply`: a step changes a catalog in the same way.
3. `reflects_run`: so a catalog answers by its history, by induction from its end.
4. `get?_run_filter`: the steps on a class see nothing of the others.

Main statement: `run_by_history`.
-/

namespace QueryCompiler.Catalog

/-- A call that changes a catalog. -/
inductive Step
  | entity (name table : String)
  | field (name field : String) (type : DomainType)
  | add (name : String) (entity : Entity)

namespace Step

/-- The catalog after a step. -/
def apply (c : Catalog) : Step → Catalog
  | entity name table => c.entity name table
  | field name f type => c.field name f type
  | add name e => c.add name e

/-- The class that a step is about. -/
def name : Step → String
  | entity name _ | field name _ _ | add name _ => name

/-- What a step registers a class with. -/
def registers? (name : String) : Step → Option Entity
  | entity name' table => if name' = name then some ⟨table, ∅⟩ else none
  | add name' e => if name' = name then some e else none
  | field _ _ _ => none

/-- What a step declares a field of a class to be. -/
def declares? (name f : String) : Step → Option DomainType
  | field name' f' type => if name' = name ∧ f' = f then some type else none
  | entity _ _ | add _ _ => none

end Step

/-- The catalog after some steps. -/
def run (c : Catalog) (steps : List Step) : Catalog := steps.foldl Step.apply c

/-- The steps that a catalog is made with: each of its classes is added. -/
def history (c : Catalog) : List Step := c.entities.entries.map fun e => .add e.1 e.2

variable {c c' : Catalog} {steps : List Step} {s : Step} {name f : String}

theorem run_append (c : Catalog) (steps steps' : List Step) :
    c.run (steps ++ steps') = (c.run steps).run steps' :=
  List.foldl_append

theorem run_concat (c : Catalog) (steps : List Step) (s : Step) :
    c.run (steps ++ [s]) = s.apply (c.run steps) := by
  rw [run_append]
  rfl

theorem run_history (c : Catalog) : empty.run c.history = c := by
  have hadds (d : Catalog) (es : List (String × Entity)) :
      d.run (es.map fun e => .add e.1 e.2)
        = ⟨es.foldl (fun s e => s.insert e.1 e.2) d.entities⟩ := by
    induction es generalizing d with
    | nil => rfl
    | cons e es ih =>
      rw [List.map_cons, run, List.foldl_cons]
      exact ih (d.add e.1 e.2)
  rw [history, hadds]
  exact congrArg Catalog.mk (Sorted.ofList_entries c.entities)

/-! ## What a history says -/

/-- What a class was last registered with. -/
def registration? (name : String) (steps : List Step) : Option Entity :=
  (steps.filterMap (·.registers? name)).getLast?

/-- The steps since a class was last registered. -/
def since (name : String) (steps : List Step) : List Step :=
  steps.rtakeWhile fun s => (s.registers? name).isNone

/-- What a field was last declared to be since its class was last registered. -/
def declared? (name f : String) (steps : List Step) : Option DomainType :=
  ((since name steps).filterMap (·.declares? name f)).getLast?

theorem getLast?_filterMap_concat {α β : Type} (f : α → Option β) (xs : List α) (x : α) :
    ((xs ++ [x]).filterMap f).getLast? = (f x).or (xs.filterMap f).getLast? := by
  rw [List.filterMap_append]
  cases hx : f x with
  | none => rw [List.filterMap_cons_none hx, List.filterMap_nil, List.append_nil, Option.none_or]
  | some y => rw [List.filterMap_cons_some hx, List.filterMap_nil, List.getLast?_concat,
      Option.some_or]

theorem registration?_concat (name : String) (steps : List Step) (s : Step) :
    registration? name (steps ++ [s]) = (s.registers? name).or (registration? name steps) :=
  getLast?_filterMap_concat ..

theorem declared?_concat_of_registers {e : Entity} (h : s.registers? name = some e) :
    declared? name f (steps ++ [s]) = none := by
  have hsince : since name (steps ++ [s]) = [] := by
    rw [since, List.rtakeWhile_concat_neg]
    rw [h]
    exact Bool.false_ne_true
  rw [declared?, hsince]
  rfl

theorem declared?_concat_of_not_registers (h : s.registers? name = none) :
    declared? name f (steps ++ [s]) = (s.declares? name f).or (declared? name f steps) := by
  have hsince : since name (steps ++ [s]) = since name steps ++ [s] := by
    rw [since, List.rtakeWhile_concat_pos]
    · rfl
    · rw [h]
      rfl
  rw [declared?, hsince, getLast?_filterMap_concat]
  rfl

/-! ## One step -/

theorem get?_add_self (c : Catalog) (name : String) (e : Entity) :
    (c.add name e).entities.get? name = some e :=
  (Sorted.get?_insert ..).trans (if_pos rfl)

theorem get?_add_of_ne {name' : String} (h : name' ≠ name) (e : Entity) :
    (c.add name' e).entities.get? name = c.entities.get? name :=
  (Sorted.get?_insert ..).trans (if_neg h.symm)

/-- A class without a registration has no place for a declaration. -/
theorem field_of_none {type : DomainType} (h : c.entities.get? name = none) :
    c.field name f type = c := by
  rw [field, h]

theorem field_of_some {type : DomainType} {e : Entity} (h : c.entities.get? name = some e) :
    c.field name f type = c.add name { e with fields := e.fields.insert f type } := by
  rw [field, h]

/-- A step leaves all classes but its own as they are. -/
theorem get?_apply_of_ne (h : s.name ≠ name) :
    (s.apply c).entities.get? name = c.entities.get? name := by
  cases s with
  | entity name' table => exact get?_add_of_ne h _
  | add name' e => exact get?_add_of_ne h e
  | field name' f type =>
    show (c.field name' f type).entities.get? name = _
    cases hn : c.entities.get? name' with
    | none => rw [field_of_none hn]
    | some e =>
      rw [field_of_some hn]
      exact get?_add_of_ne h _

theorem registers?_of_ne (h : s.name ≠ name) : s.registers? name = none := by
  cases s with
  | entity | add => exact if_neg h
  | field => rfl

theorem declares?_of_ne (h : s.name ≠ name) : s.declares? name f = none := by
  cases s with
  | entity | add => rfl
  | field => exact if_neg fun hn => h hn.1

/-! ## A catalog and its history -/

/-- A catalog holds of a class what a history says: nothing, or the table of the last registration
with the types declared since on top of those that came with it. -/
inductive Holds (c : Catalog) (steps : List Step) (name : String) : Prop
  | unregistered (hc : c.entities.get? name = none) (hr : registration? name steps = none)
  | registered {e r : Entity} (hc : c.entities.get? name = some e)
      (hr : registration? name steps = some r) (htable : e.table = r.table)
      (htype : ∀ f, e.fields.get? f = (declared? name f steps).or (r.fields.get? f))

/-- A catalog holds of every class what a history says. -/
def Reflects (c : Catalog) (steps : List Step) : Prop := ∀ name, c.Holds steps name

theorem reflects_empty : empty.Reflects [] := fun _ => .unregistered rfl rfl

/-- A registration is all there is of its class. -/
theorem holds_of_registers {e : Entity} (hs : s.registers? name = some e)
    (hc : c.entities.get? name = some e) : c.Holds (steps ++ [s]) name := by
  refine .registered hc (by rw [registration?_concat, hs, Option.some_or]) rfl ?_
  intro f
  rw [declared?_concat_of_registers hs, Option.none_or]

/-- A declaration is added to what there is of its class. -/
theorem Holds.field (h : c.Holds steps name) (f : String) (type : DomainType) :
    (c.field name f type).Holds (steps ++ [.field name f type]) name := by
  have hreg : registration? name (steps ++ [.field name f type]) = registration? name steps :=
    registration?_concat ..
  cases h with
  | unregistered hc hr =>
    rw [field_of_none hc]
    exact .unregistered hc (hreg.trans hr)
  | registered hc hr htable htype =>
    rw [field_of_some hc]
    refine .registered (get?_add_self ..) (hreg.trans hr) htable ?_
    intro f'
    rw [Sorted.get?_insert, declared?_concat_of_not_registers rfl]
    by_cases hf : f = f'
    · rw [if_pos hf.symm, Step.declares?, if_pos ⟨rfl, hf⟩, Option.some_or, Option.some_or]
    · rw [if_neg (Ne.symm hf), Step.declares?, if_neg fun hn => hf hn.2, Option.none_or]
      exact htype f'

/-- What there is of a class stays with a step on another one, and so does what the history says
of it. -/
theorem Holds.apply_of_ne (h : c.Holds steps name) (hn : s.name ≠ name) :
    (s.apply c).Holds (steps ++ [s]) name := by
  have hreg := registers?_of_ne hn
  have hsame : registration? name (steps ++ [s]) = registration? name steps := by
    rw [registration?_concat, hreg, Option.none_or]
  cases h with
  | unregistered hc hr =>
    exact .unregistered ((get?_apply_of_ne hn).trans hc) (hsame.trans hr)
  | registered hc hr htable htype =>
    refine .registered ((get?_apply_of_ne hn).trans hc) (hsame.trans hr) htable ?_
    intro f
    rw [declared?_concat_of_not_registers hreg, declares?_of_ne hn, Option.none_or]
    exact htype f

theorem Reflects.apply (h : c.Reflects steps) (s : Step) :
    (s.apply c).Reflects (steps ++ [s]) := by
  intro name
  by_cases hn : s.name = name
  · subst hn
    cases s with
    | entity name table => exact holds_of_registers (if_pos rfl) (get?_add_self ..)
    | add name e => exact holds_of_registers (if_pos rfl) (get?_add_self ..)
    | field name f type => exact (h name).field f type
  · exact (h name).apply_of_ne hn

theorem reflects_run (steps : List Step) : (empty.run steps).Reflects steps := by
  induction steps using List.reverseRecOn with
  | nil => exact reflects_empty
  | append_singleton steps s ih =>
    rw [run_concat]
    exact ih.apply s

/-- The classes that a catalog starts with are earlier steps. -/
theorem reflects_history_append (c : Catalog) (steps : List Step) :
    (c.run steps).Reflects (c.history ++ steps) := by
  have h := reflects_run (c.history ++ steps)
  rwa [run_append, run_history] at h

/-! ## Answers -/

theorem tableName_of_reflects (h : c.Reflects steps) (name : String) :
    c.tableName name = match registration? name steps with
      | some r => .ok r.table
      | none => .error (.unknownClass name) := by
  unfold tableName find
  cases h name with
  | unregistered hc hr =>
    rw [hc, hr]
    rfl
  | registered hc hr htable _ =>
    rw [hc, hr]
    exact congrArg Except.ok htable

theorem fieldType_of_reflects (h : c.Reflects steps) (name f : String) :
    c.fieldType name f = match registration? name steps with
      | some r => .ok (((declared? name f steps).or (r.fields.get? f)).getD .other)
      | none => .error (.unknownClass name) := by
  unfold fieldType find
  cases h name with
  | unregistered hc hr =>
    rw [hc, hr]
    rfl
  | registered hc hr _ htype =>
    rw [hc, hr]
    exact congrArg (fun t => Except.ok (Option.getD t .other)) (htype f)

theorem get?_eq_none_of_registration? (h : c.Reflects steps)
    (hnone : registration? name steps = none) : c.entities.get? name = none := by
  cases h name with
  | unregistered hc _ => exact hc
  | registered _ hr _ _ =>
    rw [hnone] at hr
    cases hr

/-! ## One class by itself -/

/-- What a step does to its own class depends on nothing else. -/
theorem get?_apply_congr (h : c.entities.get? s.name = c'.entities.get? s.name) :
    (s.apply c).entities.get? s.name = (s.apply c').entities.get? s.name := by
  cases s with
  | entity name table => exact (get?_add_self ..).trans (get?_add_self ..).symm
  | add name e => exact (get?_add_self ..).trans (get?_add_self ..).symm
  | field name f type =>
    show (c.field name f type).entities.get? name = (c'.field name f type).entities.get? name
    have h : c.entities.get? name = c'.entities.get? name := h
    cases hn : c'.entities.get? name with
    | none =>
      rw [hn] at h
      rw [field_of_none h, field_of_none hn, h, hn]
    | some e =>
      rw [hn] at h
      rw [field_of_some h, field_of_some hn, get?_add_self, get?_add_self]

/-- A class after a run is what the steps on it alone make of what there was of it. -/
theorem get?_run_filter (h : c.entities.get? name = c'.entities.get? name) (steps : List Step) :
    (c.run steps).entities.get? name
      = (c'.run (steps.filter fun s => s.name = name)).entities.get? name := by
  induction steps generalizing c c' with
  | nil => exact h
  | cons s steps ih =>
    rw [List.filter_cons]
    by_cases hs : s.name = name
    · rw [if_pos (decide_eq_true hs)]
      apply ih
      rw [← hs] at h ⊢
      exact get?_apply_congr h
    · rw [if_neg (mt of_decide_eq_true hs)]
      apply ih
      rw [get?_apply_of_ne hs]
      exact h

theorem get?_eq_iff_find_eq :
    c.entities.get? name = c'.entities.get? name ↔ c.find name = c'.find name := by
  unfold find
  cases c.entities.get? name <;> cases c'.entities.get? name <;> simp

/-- After any steps from any catalog, whose classes count as added first, the table of a class is
that of its last registration; the type of a field is the one last declared since, or else the one
that came with the registration, or else none in particular. A declaration for a class that is not
registered by then changes nothing, nor does a step on one class change what is found of another.
The catalog comes back from its text. -/
theorem run_by_history (c : Catalog) (steps : List Step) :
    (∀ name, (c.run steps).tableName name
      = match registration? name (c.history ++ steps) with
        | some r => .ok r.table
        | none => .error (.unknownClass name)) ∧
    (∀ name f, (c.run steps).fieldType name f
      = match registration? name (c.history ++ steps) with
        | some r =>
          .ok (((declared? name f (c.history ++ steps)).or (r.fields.get? f)).getD .other)
        | none => .error (.unknownClass name)) ∧
    (∀ name f type after, registration? name (c.history ++ steps) = none →
      c.run (steps ++ .field name f type :: after) = c.run (steps ++ after)) ∧
    (∀ name (c' : Catalog), c.find name = c'.find name →
      (c.run steps).find name = (c'.run (steps.filter fun s => s.name = name)).find name) ∧
    (Json.read? (c.run steps).toJson.compact).bind ofJson? = some (c.run steps) := by
  have hreflects := reflects_history_append c steps
  refine ⟨tableName_of_reflects hreflects, fieldType_of_reflects hreflects, ?_, ?_,
    ofJson?_read? _⟩
  · intro name f type after hnone
    have hmissing := get?_eq_none_of_registration? hreflects hnone
    rw [run_append, run_append]
    show ((c.run steps).field name f type).run after = _
    rw [field_of_none hmissing]
  · intro name c' h
    exact get?_eq_iff_find_eq.1 (get?_run_filter (get?_eq_iff_find_eq.2 h) steps)

/-- A class is registered again, which wipes its fields; a class that comes later has lost the
declaration that came too early. -/
theorem run_by_history_sample :
    let user : Entity := ⟨"users", (∅ : Sorted String DomainType).insert "age" .integer⟩
    let start := empty.add "User" user
    let steps := [Step.field "User" "name" .string, .entity "User" "people",
      .field "User" "mail" .json]
    (start.run steps).tableName "User" = .ok "people" ∧
      (start.run steps).fieldType "User" "name" = .ok .other ∧
      (start.run steps).fieldType "User" "mail" = .ok .json ∧
      start.run (steps ++ [.field "Order" "total" .float, .entity "Order" "orders"])
        = start.run (steps ++ [.entity "Order" "orders"]) ∧
      (start.run steps).find "User" = (start.run (steps.filter fun s => s.name = "User")).find
        "User" := by
  intro user start steps
  obtain ⟨htable, htype, hearly, hown, -⟩ := run_by_history start steps
  exact ⟨(htable "User").trans rfl, (htype "User" "name").trans rfl,
    (htype "User" "mail").trans rfl, hearly "Order" "total" .float _ rfl, hown "User" start rfl⟩

end QueryCompiler.Catalog
