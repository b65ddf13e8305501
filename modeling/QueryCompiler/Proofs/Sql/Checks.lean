import QueryCompiler.Proofs.Sql.Parts

/-!
# Where a statement can fail

The tables and the filter of a statement are put together from table names and comparisons.
`bodyChecks` lists them in the order in which they are written: the root, each link with its table
and its conditions, the filter. The body ends as the first of them that fails does, and all of it
can be written if and only if each of them can.

Main statement: `check_body`.
-/

namespace QueryCompiler.Compiler

open Outcome Predicate

/-- The comparisons of a filter, as they stand. -/
def filterChecks (k : Compiler) (r : Request) (ps : List Predicate) : List (Except Fault Unit) :=
  (comparisons ps).map fun c => check (k.comparison r c)

/-- The table of a link and the comparisons of its conditions. -/
def linkChecks (k : Compiler) (r : Request) (e : Nat × Link) : List (Except Fault Unit) :=
  check (k.tableName r e.1) :: k.filterChecks r e.2.conditions

/-- All that the tables and the filter are put together from. -/
def bodyChecks (k : Compiler) (r : Request) : List (Except Fault Unit) :=
  check (k.tableName r 0) ::
    (r.links.entries.flatMap (k.linkChecks r) ++ k.filterChecks r r.conditions)

variable {k : Compiler} {r : Request}

theorem check_conditions (ps : List Predicate) :
    check (k.conditions r ps) = inOrder (k.filterChecks r ps) := by
  induction ps using sequenceInduction with
  | nil => rfl
  | comparison connector c ps ih =>
    rw [conditions_cons, check_bind_bind_pure, ih, condition, check_bind_pure]
    rfl
  | group connector children ps ihc ih =>
    rw [conditions_cons, check_bind_bind_pure, ih, condition, check_bind_pure, ihc, ← inOrder_append,
      filterChecks, filterChecks, filterChecks, comparisons_group_cons, List.map_append]

/-- Conditions that are left out if there are none are checked like any others. -/
theorem check_conditions_unless (ps : List Predicate) (f : Sql → Sql) :
    check (if ps.isEmpty then .ok [] else do return f (← k.conditions r ps))
      = inOrder (k.filterChecks r ps) := by
  cases ps with
  | nil => rfl
  | cons p ps =>
    rw [List.isEmpty_cons, if_neg Bool.false_ne_true, check_bind_pure, check_conditions]

theorem check_joinLine (e : Nat × Link) :
    check (k.joinLine r e.1 e.2) = inOrder (k.linkChecks r e) := by
  have hconditions := check_conditions_unless (k := k) (r := r) e.2.conditions
    fun q => .words " AND (" :: q ++ [.words ")"]
  unfold joinLine
  rw [check_bind_bind_pure, linkConditions, hconditions]
  rfl

theorem check_joinLines (es : List (Nat × Link)) :
    check (k.joinLines r es) = inOrder (es.flatMap (k.linkChecks r)) := by
  induction es with
  | nil => rfl
  | cons e es ih =>
    rw [joinLines, check_bind_bind_pure, ih, check_joinLine, List.flatMap_cons, inOrder_append]

/-- The body ends as the first of its parts that fails. -/
theorem check_body (k : Compiler) (r : Request) :
    check (k.body r) = inOrder (k.bodyChecks r) := by
  have hsource : check (k.source r) =
      inOrder (check (k.tableName r 0) :: r.links.entries.flatMap (k.linkChecks r)) := by
    unfold source
    rw [check_bind_bind_pure, check_joinLines]
    rfl
  unfold body
  rw [check_bind_bind_pure, hsource, filterLine, check_conditions_unless, ← inOrder_append]
  rfl

/-- The body can be written if and only if all its tables and comparisons can. -/
theorem exists_body_iff :
    (∃ q, k.body r = .ok q) ↔
      (∃ name, k.tableName r 0 = .ok name) ∧
      (∀ e ∈ r.links.entries, (∃ name, k.tableName r e.1 = .ok name) ∧
        ∀ c ∈ comparisons e.2.conditions, ∃ q, k.comparison r c = .ok q) ∧
      ∀ c ∈ comparisons r.conditions, ∃ q, k.comparison r c = .ok q := by
  have hfilter (ps : List Predicate) : (∀ x ∈ k.filterChecks r ps, x = .ok ()) ↔
      ∀ c ∈ comparisons ps, ∃ q, k.comparison r c = .ok q := by
    simp only [filterChecks, List.forall_mem_map, check_eq_ok_iff]
  rw [← check_eq_ok_iff, check_body, inOrder_eq_ok_iff, bodyChecks, List.forall_mem_cons,
    List.forall_mem_append, hfilter, check_eq_ok_iff]
  simp only [List.forall_mem_flatMap, linkChecks, List.forall_mem_cons, hfilter, check_eq_ok_iff]

/-- A fault of the body is the fault of one of its parts. -/
theorem mem_bodyChecks_of_error {e : Fault} (h : k.body r = .error e) :
    .error e ∈ k.bodyChecks r := by
  refine inOrder_eq_error ?_
  rw [← check_body]
  exact check_eq_error_iff.2 h

end QueryCompiler.Compiler
