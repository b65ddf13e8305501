import QueryCompiler.Proofs.Filter
import QueryCompiler.Proofs.Sql.LiteralText
import QueryCompiler.Proofs.Sql.Parts

/-!
# Scalars and literals

The literals of a statement are the scalars of its request, one for one and in the order of the
text. A scalar is not written if the operator of its comparison takes no value.

1. `renders_operand`: the literals of an operand are the scalars of its comparison.
2. `renders_conditions`: so it is for a filter, by induction into its groups.
3. `renders_joinLines` and `renders_body`: so it is for the joins, table by table, and the filter.

Main statements: `renders_select` and `renders_count`.
-/

namespace QueryCompiler

open Outcome Predicate

/-- The scalars of a comparison, if its operator takes a value. -/
def Comparison.scalars (c : Comparison) : List Scalar :=
  if c.operator.takesValue then
    match c.value with
    | .literal s => [s]
    | .list items => items
    | _ => []
  else []

/-- The scalars of a sequence in the order of its text. -/
def Predicate.scalars (ps : List Predicate) : List Scalar :=
  (comparisons ps).flatMap Comparison.scalars

/-- The scalars of a request in the order of its text: joins by table, then the filter. -/
def Request.scalars (r : Request) : List Scalar :=
  r.links.entries.flatMap (fun e => Predicate.scalars e.2.conditions)
    ++ Predicate.scalars r.conditions

namespace Sql

theorem literals_separated (s : String) (qs : List Sql) :
    literals (separated s qs) = qs.flatMap literals := by
  induction qs with
  | nil => rfl
  | cons q qs ih =>
    cases qs with
    | nil => simp [separated_singleton]
    | cons q' qs =>
      rw [separated_cons_cons, literals_append, literals_words_cons, ih]
      rfl

end Sql

namespace Compiler

open Sql

variable {k : Compiler} {r : Request} {c : Comparison} {q : Sql}

/-! ## The literals of tables and filter -/

theorem literals_items (ls : List Literal) :
    (Operand.list (ls.map fun l => [.literal l])).marks.literals = ls := by
  show literals ((ls.map fun l => [.literal l]).flatMap marks) = ls
  induction ls with
  | nil => rfl
  | cons l ls ih =>
    rw [List.map_cons, List.flatMap_cons, literals_append, ih]
    rfl

/-- The literals of an operand are the scalars of its comparison. -/
theorem renders_operand {o : Operand} (h : OperandCase r c o) :
    List.Forall₂ Literal.Renders c.scalars o.marks.literals := by
  unfold Comparison.scalars
  cases h with
  | none h =>
    rcases h with h | h
    · rw [h]
      exact .nil
    · rw [h]
      split <;> exact .nil
  | literal ht hv hl =>
    rw [if_pos ht, hv]
    exact .cons (.inr ⟨_, hl⟩) .nil
  | column ht hv =>
    rw [if_pos ht, hv]
    exact .nil
  | list ht hv hl =>
    rw [if_pos ht, hv, literals_items]
    exact Literal.forall_renders_of_mapM hl

theorem renders_comparison (h : k.comparison r c = .ok q) :
    List.Forall₂ Literal.Renders c.scalars q.literals := by
  obtain ⟨o, ho, hmarks⟩ := comparison_marks h
  rw [← literals_marks, hmarks]
  exact renders_operand ho

/-- The literals of a filter are its scalars, one for one and in order. -/
theorem renders_conditions {ps : List Predicate} (h : k.conditions r ps = .ok q) :
    List.Forall₂ Literal.Renders (Predicate.scalars ps) q.literals := by
  unfold Predicate.scalars
  induction ps using sequenceInduction generalizing q with
  | nil =>
    cases h
    exact .nil
  | comparison connector c ps ih =>
    obtain ⟨q₁, q₂, h₁, h₂, rfl⟩ := conditions_comparison_eq_ok_iff.1 h
    simp only [comparisons_comparison_cons, List.flatMap_cons, literals_append,
      literals_connectorSql, List.nil_append]
    exact List.rel_append (renders_comparison h₁) (ih h₂)
  | group connector children ps ihc ih =>
    obtain ⟨q₁, q₂, h₁, h₂, rfl⟩ := conditions_group_eq_ok_iff.1 h
    simp only [comparisons_group_cons, List.flatMap_append, literals_append,
      literals_connectorSql, literals_words_cons, literals_nil, List.nil_append, List.append_nil]
    exact List.rel_append (ihc h₁) (ih h₂)

theorem renders_joinLines {es : List (Nat × Link)} (h : k.joinLines r es = .ok q) :
    List.Forall₂ Literal.Renders (es.flatMap fun e => Predicate.scalars e.2.conditions)
      q.literals := by
  induction es generalizing q with
  | nil =>
    cases h
    exact .nil
  | cons e es ih =>
    obtain ⟨_, q₂, hline, h₂, rfl⟩ := joinLines_cons_eq_ok_iff.1 h
    obtain ⟨name, q₁, -, h₁, rfl⟩ := joinLine_eq_ok_iff.1 hline
    have hhead : (joinHead name e.1 e.2).literals = [] := rfl
    have hrenders : List.Forall₂ Literal.Renders (Predicate.scalars e.2.conditions)
        q₁.literals := by
      rcases linkConditions_eq_ok_iff.1 h₁ with ⟨hnil, rfl⟩ | ⟨-, q₃, h₃, rfl⟩
      · rw [hnil]
        exact .nil
      · simpa using renders_conditions h₃
    simp only [List.flatMap_cons, literals_append, hhead, literals_words_cons, literals_nil,
      List.nil_append, List.append_nil]
    exact List.rel_append hrenders (ih h₂)

/-- The literals of tables and filter are the scalars of the request. -/
theorem renders_body (h : k.body r = .ok q) :
    List.Forall₂ Literal.Renders r.scalars q.literals := by
  obtain ⟨source, line, hs, hl, rfl⟩ := body_eq_ok_iff.1 h
  obtain ⟨name, lines, -, hlines, rfl⟩ := source_eq_ok_iff.1 hs
  have hhead : literals [.words "FROM ", .table name 0] = [] := rfl
  have hrenders : List.Forall₂ Literal.Renders (Predicate.scalars r.conditions)
      line.literals := by
    rcases filterLine_eq_ok_iff.1 hl with ⟨hnil, rfl⟩ | ⟨-, q₁, h₁, rfl⟩
    · rw [hnil]
      exact .nil
    · simpa using renders_conditions h₁
  rw [literals_append, literals_append, hhead, List.nil_append]
  exact List.rel_append (renders_joinLines hlines) hrenders

/-! ## Statements -/

theorem literals_selectList (r : Request) : (selectList r).literals = [] := by
  unfold selectList
  rw [literals_separated, List.flatMap_map, List.flatMap_eq_nil_iff]
  exact fun _ _ => rfl

theorem literals_orderLine (r : Request) : (orderLine r).literals = [] := by
  unfold orderLine
  split
  · rfl
  · rw [literals_words_cons, literals_separated, List.flatMap_map, List.flatMap_eq_nil_iff]
    intro term _
    unfold orderItem
    cases term.part <;> rfl

theorem literals_limitLine (r : Request) : (limitLine r).literals = [] := by
  unfold limitLine
  split <;> rfl

theorem literals_distinctWords (r : Request) : (distinctWords r).literals = [] := by
  unfold distinctWords
  split <;> rfl

theorem renders_select (h : k.select r = .ok q) :
    List.Forall₂ Literal.Renders r.scalars q.literals := by
  obtain ⟨-, -, b, hb, rfl⟩ := select_eq_ok_iff.1 h
  simp only [literals_append, literals_selectList, literals_orderLine, literals_limitLine,
    literals_distinctWords, literals_words_cons, literals_nil, List.nil_append, List.append_nil]
  exact renders_body hb

theorem renders_count (h : k.count r = .ok q) :
    List.Forall₂ Literal.Renders r.scalars q.literals := by
  obtain ⟨-, b, hb, rfl⟩ := count_eq_ok_iff.1 h
  have hcolumn : literals [.column 0 "id", .words ") AS C\n"] = [] := rfl
  simp only [literals_append, hcolumn, literals_distinctWords, literals_words_cons, literals_nil,
    List.nil_append]
  exact renders_body hb

end Compiler

end QueryCompiler
