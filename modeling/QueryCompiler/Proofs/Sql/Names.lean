import QueryCompiler.Draft.Request
import QueryCompiler.Proofs.Sql.Checks
import QueryCompiler.Proofs.Sql.Nesting

/-!
# Names of fields in a statement

A statement names fields as columns, and the selected ones as output names too. All these names
come from the request, and they are written as they are there. Only the column on the right of a
comparison has to be an identifier; of the names in other places nothing is asked.

1. `names_comparison`: a comparison is written with its own field and the column on its right.
2. `names_conditions`, `names_joinLines` and `names_body`: so it is for a filter, by induction into
   its groups, for the joins and for both together.
3. `isIdentifier_of_body`: if these can be written, the columns on the right are identifiers.

Main statement: `isIdentifier_names_iff`. The names of a statement can carry more than a name:
`exists_name_not_identifier`.
-/

namespace QueryCompiler

open Outcome Predicate

/-! ## Names in a request -/

/-- The column on the right of a comparison, if its operator takes a value. -/
def Comparison.references (c : Comparison) : List String :=
  if c.operator.takesValue then
    match c.value with
    | .column _ field => [field]
    | _ => []
  else []

/-- The names that a comparison is written with. -/
def Comparison.names (c : Comparison) : List String := c.field :: c.references

namespace Predicate

/-- The columns on the right of comparisons. -/
def references (ps : List Predicate) : List String :=
  (comparisons ps).flatMap Comparison.references

/-- The names that a filter is written with. -/
def names (ps : List Predicate) : List String := (comparisons ps).flatMap Comparison.names

end Predicate

/-- The names that a join is written with. -/
def Link.names (l : Link) : List String :=
  l.leftField :: l.rightField :: Predicate.names l.conditions

namespace Request

/-- The columns on the right of comparisons, in the joins and in the filter. -/
def references (r : Request) : List String :=
  r.links.entries.flatMap (fun e => Predicate.references e.2.conditions)
    ++ Predicate.references r.conditions

/-- The other fields that the joins and the filter name. -/
def bodyFieldNames (r : Request) : List String :=
  r.links.entries.flatMap (fun e => e.2.fieldNames) ++ (comparisons r.conditions).map (·.field)

/-- The names that the joins and the filter are written with. -/
def bodyNames (r : Request) : List String :=
  r.links.entries.flatMap (fun e => e.2.names) ++ Predicate.names r.conditions

/-- The names that the selected fields are written with, each as a column and as an output name. -/
def selectedNames (r : Request) : List String :=
  (Compiler.selected r).flatMap fun s => [s.2, s.2]

end Request

section

variable {P : String → Prop} {ps : List Predicate}

theorem Predicate.forall_names_iff :
    (∀ name ∈ names ps, P name) ↔
      (∀ c ∈ comparisons ps, P c.field) ∧ ∀ field ∈ references ps, P field := by
  simp only [names, references, Comparison.names, List.forall_mem_flatMap, List.forall_mem_cons,
    forall_and]

theorem Link.forall_names_iff {l : Link} :
    (∀ name ∈ l.names, P name) ↔
      (∀ field ∈ l.fieldNames, P field) ∧ ∀ field ∈ references l.conditions, P field := by
  simp only [names, fieldNames, List.forall_mem_cons, List.forall_mem_map,
    Predicate.forall_names_iff, and_assoc]

namespace Request

variable {r : Request}

theorem forall_bodyNames_iff :
    (∀ name ∈ r.bodyNames, P name) ↔
      (∀ field ∈ r.bodyFieldNames, P field) ∧ ∀ field ∈ r.references, P field := by
  simp only [bodyNames, bodyFieldNames, references, List.forall_mem_append,
    List.forall_mem_flatMap, List.forall_mem_map, Link.forall_names_iff,
    Predicate.forall_names_iff, forall_and]
  tauto

theorem forall_selectedNames_iff :
    (∀ name ∈ r.selectedNames, P name) ↔
      ∀ field ∈ r.fields.entries.flatMap (fun e => e.2), P field := by
  simp only [selectedNames, Compiler.selected, List.forall_mem_flatMap, List.forall_mem_map,
    List.forall_mem_cons, List.not_mem_nil, false_implies, implies_true, and_true, and_self]

theorem forall_fieldNames_iff :
    (∀ field ∈ r.fieldNames, P field) ↔
      (∀ field ∈ r.bodyFieldNames, P field) ∧ (∀ name ∈ r.selectedNames, P name) ∧
        ∀ field ∈ r.order.map (·.field), P field := by
  rw [forall_selectedNames_iff, ← and_assoc, ← List.forall_mem_append, ← List.forall_mem_append]
  rfl

end Request

end

/-! ## Names in a statement -/

namespace Sql

/-- The names of fields that some pieces write, of columns and of outputs. -/
def names (q : Sql) : List String :=
  q.filterMap fun
    | .column _ field | .label _ field => some field
    | _ => none

variable {q q' : Sql} {table : Nat} {field s : String}

@[simp] theorem names_nil : names [] = [] := rfl

@[simp] theorem names_words_cons : names (.words s :: q) = names q := rfl

@[simp] theorem names_table_cons : names (.table s table :: q) = names q := rfl

@[simp] theorem names_column_cons : names (.column table field :: q) = field :: names q := rfl

@[simp] theorem names_append : names (q ++ q') = names q ++ names q' := List.filterMap_append

theorem names_marks (q : Sql) : names (marks q) = names q := by
  induction q with
  | nil => rfl
  | cons p q ih => cases p <;> simpa [marks, names] using ih

theorem names_separated (s : String) (qs : List Sql) :
    names (separated s qs) = qs.flatMap names := by
  rw [← names_marks, marks_separated]
  induction qs with
  | nil => rfl
  | cons q qs ih => rw [List.flatMap_cons, List.flatMap_cons, names_append, names_marks, ih]

end Sql

namespace Compiler

open Sql

variable {k : Compiler} {r : Request} {c : Comparison} {q : Sql}

/-! ## The names of tables and filter -/

/-- An operand is about the column on the right of its comparison, if there is one. -/
theorem names_operand {o : Operand} (h : OperandCase r c o) :
    o.marks.names = c.references ∧ ∀ field ∈ c.references, isIdentifier field = true := by
  have hnone {qs : Sql} (hqs : qs.names = []) (hc : c.references = []) :
      qs.names = c.references ∧ ∀ field ∈ c.references, isIdentifier field = true := by
    rw [hqs, hc]
    exact ⟨rfl, fun _ h => absurd h List.not_mem_nil⟩
  unfold Comparison.references at hnone ⊢
  cases h with
  | none h =>
    apply hnone rfl
    rcases h with h | h
    · rw [h]
      rfl
    · rw [h, ite_self]
  | literal ht hv _ => exact hnone rfl (by rw [ht, hv]; rfl)
  | column ht hv _ hf =>
    rw [ht, hv]
    exact ⟨rfl, List.forall_mem_singleton.2 hf⟩
  | @list _ ls ht hv _ =>
    refine hnone ?_ (by rw [ht, hv]; rfl)
    show Sql.names ((ls.map fun l => [.literal l]).flatMap marks) = []
    rw [List.flatMap_map, Sql.names, List.filterMap_flatMap, List.flatMap_eq_nil_iff]
    exact fun _ _ => rfl

/-- A comparison is written with its own field and the column on its right, which is an
identifier. -/
theorem names_comparison (h : k.comparison r c = .ok q) :
    q.names = c.names ∧ ∀ field ∈ c.references, isIdentifier field = true := by
  obtain ⟨o, ho, hq⟩ := comparison_marks h
  obtain ⟨hnames, hreferences⟩ := names_operand ho
  rw [← names_marks, hq, names_column_cons, hnames]
  exact ⟨rfl, hreferences⟩

@[simp] theorem names_connectorSql (connector : Option Connector) :
    (connectorSql connector).names = [] := by
  cases connector <;> rfl

theorem names_conditions {ps : List Predicate} (h : k.conditions r ps = .ok q) :
    q.names = Predicate.names ps := by
  induction ps using sequenceInduction generalizing q with
  | nil =>
    cases h
    rfl
  | comparison connector c ps ih =>
    obtain ⟨q₁, q₂, h₁, h₂, rfl⟩ := conditions_comparison_eq_ok_iff.1 h
    simp only [names_append, names_connectorSql, (names_comparison h₁).1, ih h₂,
      List.nil_append]
    rfl
  | group connector children ps ihc ih =>
    obtain ⟨q₁, q₂, h₁, h₂, rfl⟩ := conditions_group_eq_ok_iff.1 h
    simp only [names_append, names_connectorSql, names_words_cons, names_nil, ihc h₁, ih h₂,
      List.nil_append, List.append_nil]
    rw [Predicate.names, Predicate.names, Predicate.names, comparisons_group_cons,
      List.flatMap_append]

theorem names_joinLine {table : Nat} {link : Link} (h : k.joinLine r table link = .ok q) :
    q.names = link.names := by
  obtain ⟨name, q₁, -, h₁, rfl⟩ := joinLine_eq_ok_iff.1 h
  have hconditions : q₁.names = Predicate.names link.conditions := by
    rcases linkConditions_eq_ok_iff.1 h₁ with ⟨hlink, rfl⟩ | ⟨-, q₂, h₂, rfl⟩
    · rw [hlink]
      rfl
    · simp only [names_append, names_words_cons, names_nil, names_conditions h₂, List.nil_append,
        List.append_nil]
  simp only [joinHead, names_append, names_words_cons, names_table_cons, names_column_cons,
    names_nil, hconditions, List.append_nil]
  rfl

theorem names_joinLines {es : List (Nat × Link)} (h : k.joinLines r es = .ok q) :
    q.names = es.flatMap fun e => e.2.names := by
  induction es generalizing q with
  | nil =>
    cases h
    rfl
  | cons e es ih =>
    obtain ⟨q₁, q₂, h₁, h₂, rfl⟩ := joinLines_cons_eq_ok_iff.1 h
    rw [names_append, names_joinLine h₁, ih h₂, List.flatMap_cons]

theorem names_body (h : k.body r = .ok q) : q.names = r.bodyNames := by
  obtain ⟨source, line, hs, hl, rfl⟩ := body_eq_ok_iff.1 h
  obtain ⟨name, lines, -, hlines, rfl⟩ := source_eq_ok_iff.1 hs
  have hfilter : line.names = Predicate.names r.conditions := by
    rcases filterLine_eq_ok_iff.1 hl with ⟨hr, rfl⟩ | ⟨-, q₁, hq₁, rfl⟩
    · rw [hr]
      rfl
    · rw [names_append, names_conditions hq₁]
      rfl
  rw [names_append, names_append, hfilter, names_joinLines hlines]
  rfl

/-- The joins and the filter are written only if every column on the right is an identifier. -/
theorem isIdentifier_of_body (h : k.body r = .ok q) :
    ∀ field ∈ r.references, isIdentifier field = true := by
  obtain ⟨-, hlinks, hconditions⟩ := exists_body_iff.1 ⟨q, h⟩
  have hreferences {ps : List Predicate}
      (hps : ∀ c ∈ comparisons ps, ∃ q, k.comparison r c = .ok q) :
      ∀ field ∈ Predicate.references ps, isIdentifier field = true := by
    intro field hfield
    obtain ⟨c, hc, hfield⟩ := List.mem_flatMap.1 hfield
    obtain ⟨q₁, hq₁⟩ := hps c hc
    exact (names_comparison hq₁).2 field hfield
  unfold Request.references
  rw [List.forall_mem_append, List.forall_mem_flatMap]
  exact ⟨fun e he => hreferences (hlinks e he).2, hreferences hconditions⟩

/-! ## The names of statements -/

theorem names_selectList (r : Request) : (selectList r).names = r.selectedNames := by
  rw [selectList, names_separated, List.flatMap_map]
  rfl

theorem names_orderLine (r : Request) : (orderLine r).names = r.order.map (·.field) := by
  have hitem (term : OrderTerm) : (orderItem term).names = [term.field] := by
    obtain ⟨_, _, _ | _, _⟩ := term <;> rfl
  unfold orderLine
  cases r.order with
  | nil => rfl
  | cons term terms =>
    rw [List.isEmpty_cons, if_neg Bool.false_ne_true, names_words_cons, names_separated,
      List.flatMap_map, List.map_eq_flatMap]
    simp only [hitem]

theorem names_limitLine (r : Request) : (limitLine r).names = [] := by
  unfold limitLine
  split <;> rfl

theorem names_distinctWords (r : Request) : (distinctWords r).names = [] := by
  unfold distinctWords
  split <;> rfl

theorem names_select (h : k.select r = .ok q) :
    q.names = r.selectedNames ++ r.bodyNames ++ r.order.map (·.field) := by
  obtain ⟨-, -, b, hb, rfl⟩ := select_eq_ok_iff.1 h
  simp only [names_append, names_words_cons, names_nil, names_distinctWords, names_selectList,
    names_body hb, names_orderLine, names_limitLine, List.nil_append, List.append_nil]

theorem names_count (h : k.count r = .ok q) : q.names = "id" :: r.bodyNames := by
  obtain ⟨-, b, hb, rfl⟩ := count_eq_ok_iff.1 h
  simp only [names_append, names_words_cons, names_column_cons, names_nil, names_distinctWords,
    names_body hb, List.nil_append, List.append_nil]
  rfl

/-- A statement writes the names of its request as they are. The columns on the right of comparisons
are identifiers. All names therefore are if and only if those are that the request gives in the
other places, in the joins and the filter and, for the rows, as selected fields and sort keys. -/
theorem isIdentifier_names_iff (k : Compiler) (r : Request) :
    (∀ q, k.select r = .ok q →
      q.names = r.selectedNames ++ r.bodyNames ++ r.order.map (·.field) ∧
        (∀ field ∈ r.references, isIdentifier field = true) ∧
        ((∀ name ∈ q.names, isIdentifier name = true) ↔
          ∀ field ∈ r.fieldNames, isIdentifier field = true)) ∧
      ∀ q, k.count r = .ok q →
        q.names = "id" :: r.bodyNames ∧
          (∀ field ∈ r.references, isIdentifier field = true) ∧
          ((∀ name ∈ q.names, isIdentifier name = true) ↔
            ∀ field ∈ r.bodyFieldNames, isIdentifier field = true) := by
  constructor
  · intro q hq
    obtain ⟨-, -, b, hb, -⟩ := select_eq_ok_iff.1 hq
    have hreferences := isIdentifier_of_body hb
    refine ⟨names_select hq, hreferences, ?_⟩
    rw [names_select hq, Request.forall_fieldNames_iff, List.forall_mem_append,
      List.forall_mem_append, Request.forall_bodyNames_iff]
    tauto
  · intro q hq
    obtain ⟨-, b, hb, -⟩ := count_eq_ok_iff.1 hq
    have hreferences := isIdentifier_of_body hb
    refine ⟨names_count hq, hreferences, ?_⟩
    rw [names_count hq, List.forall_mem_cons, Request.forall_bodyNames_iff]
    exact ⟨fun h => h.2.1, fun h => ⟨rfl, h, hreferences⟩⟩

/-- Among the names of the sample there is a column on the right of a comparison. -/
theorem isIdentifier_names_iff_sample :
    ∃ q q' : Sql, shop.select .sample = .ok q ∧ shop.count .sample = .ok q' ∧
      (∀ name ∈ q.names, isIdentifier name = true) ∧
      ∀ name ∈ q'.names, isIdentifier name = true := by
  have hq : shop.select .sample = .ok _ := rfl
  have hq' : shop.count .sample = .ok _ := rfl
  obtain ⟨hselect, hcount⟩ := isIdentifier_names_iff shop .sample
  exact ⟨_, _, hq, hq', (hselect _ hq).2.2.2 (by decide), (hcount _ hq').2.2.2 (by decide)⟩

/-- A selected field that brings along a column of its own. -/
def smuggled : String :=
  "\x7b\"classes\":[\"User\"],\"fields\":\x7b\"0\":[\"id, T0.password\"]\x7d\x7d"

/-- The request is accepted, and the statement has a column that is not among its fields. -/
theorem exists_name_not_identifier :
    ∃ r q, Request.parse .strict smuggled = .ok r ∧ shop.select r = .ok q ∧
      q.toText = "SELECT T0.id, T0.password AS T0_id, T0.password\nFROM users T0" ∧
      ∃ name ∈ q.names, isIdentifier name = false := by
  have hrun : ((fun q : Sql => (q.toText, q.names.all isIdentifier)) <$>
      (Request.parse .strict smuggled >>= shop.select)).toOption =
        some ("SELECT T0.id, T0.password AS T0_id, T0.password\nFROM users T0", false) := by
    decide +kernel
  obtain ⟨q, hq, htext⟩ := map_eq_ok_iff.1 (toOption_eq_some_iff.1 hrun)
  obtain ⟨r, hr, hq⟩ := bind_eq_ok_iff.1 hq
  rw [Prod.mk.injEq, List.all_eq_false] at htext
  obtain ⟨htext, name, hname, hnot⟩ := htext
  exact ⟨r, q, hr, hq, htext, name, hname, Bool.eq_false_iff.2 hnot⟩

end Compiler

end QueryCompiler
