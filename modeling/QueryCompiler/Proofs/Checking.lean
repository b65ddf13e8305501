import QueryCompiler.Proofs.Sql.Renaming

/-!
# What the checks look at

The checks of a request go by its classes, by the keys of its links and by its aliases, and of a
comparison they see its table and the alias of its column. Requests that share all this pass or fail
together, and with the same fault.

1. `checkComparison_congr`: a comparison is checked alike if it names the same tables.
2. `checkPredicates_mapComparisons`: so is a filter, whatever else is done to its comparisons.
3. `validate_filter`: a predicate that is added to a valid request is checked by itself.

Main statements: `validate_mapComparisons` and `validate_filter`.
-/

namespace QueryCompiler.Request

open Outcome Predicate

/-- Two requests with the same classes, links at the same tables, and the same aliases. -/
structure SharesTables (r' r : Request) : Prop where
  classes : r'.classes = r.classes
  linked : ∀ table, r'.links.contains table = r.links.contains table
  aliases : r'.aliases = r.aliases

/-- Two comparisons with the same table on the left and the same alias on the right. -/
def NamesAlike (c' c : Comparison) : Prop :=
  c'.table = c.table ∧ c'.value.aliasName? = c.value.aliasName?

variable {r r' : Request} {usage : Usage} {bound : Option Nat} {table : Nat}
  {c c' : Comparison} {f : Comparison → Comparison} {ps : List Predicate}

/-! ## One check -/

theorem SharesTables.isAttached (h : r'.SharesTables r) :
    r'.isAttached table = r.isAttached table := by
  unfold Request.isAttached
  rw [h.classes, h.linked]

theorem checkAttached_congr (h : r'.SharesTables r) :
    r'.checkAttached usage table = r.checkAttached usage table := by
  unfold checkAttached
  rw [h.classes, h.isAttached]

theorem checkReference_congr (h : r'.SharesTables r) :
    r'.checkReference usage bound table = r.checkReference usage bound table := by
  unfold checkReference
  rw [checkAttached_congr h]

theorem tableOf_congr (h : r'.SharesTables r) (aliasName : String) :
    r'.tableOf aliasName = r.tableOf aliasName := by
  unfold tableOf
  rw [h.aliases]

/-- The check of a comparison by the alias on its right. -/
theorem checkComparison_eq (r : Request) (usage : Usage) (bound : Option Nat) (c : Comparison) :
    r.checkComparison usage bound c = (do
      r.checkReference usage bound c.table
      match c.value.aliasName? with
      | some aliasName => r.checkReference .columnReference bound (← r.tableOf aliasName)
      | none => .ok ()) := by
  unfold checkComparison
  cases c.value <;> rfl

theorem checkComparison_congr (h : r'.SharesTables r) (hc : NamesAlike c' c) :
    r'.checkComparison usage bound c' = r.checkComparison usage bound c := by
  simp only [checkComparison_eq, hc.1, hc.2, checkReference_congr h, tableOf_congr h]

theorem checkPredicate_group (connector : Option Connector) (children : List Predicate) :
    r.checkPredicate usage bound (.group connector children) =
      if children = [] then .error (.invalidValue .emptyGroup)
      else r.checkPredicates usage bound children := by
  cases children with
  | nil => rfl
  | cons p ps => rw [checkPredicate, if_neg (List.cons_ne_nil p ps), checkPredicates]

theorem mapComparisons_eq_nil_iff : Predicate.mapComparisons f ps = [] ↔ ps = [] := by
  rw [← List.isEmpty_iff, isEmpty_mapComparisons, List.isEmpty_iff]

theorem checkPredicates_mapComparisons (h : r'.SharesTables r)
    (hf : ∀ c ∈ comparisons ps, NamesAlike (f c) c) :
    r'.checkPredicates usage bound (Predicate.mapComparisons f ps) = r.checkPredicates usage bound ps := by
  induction ps using sequenceInduction with
  | nil => rfl
  | comparison connector c ps ih =>
    rw [comparisons_comparison_cons, List.forall_mem_cons] at hf
    simp only [mapComparisons_comparison_cons, checkPredicates, checkPredicate]
    rw [checkComparison_congr h hf.1, ih hf.2]
  | group connector children ps ihc ih =>
    rw [comparisons_group_cons, List.forall_mem_append] at hf
    simp only [mapComparisons_group_cons, checkPredicates, checkPredicate_group,
      mapComparisons_eq_nil_iff]
    rw [ihc hf.1, ih hf.2]

theorem checkPredicates_congr (h : r'.SharesTables r) (ps : List Predicate) :
    r'.checkPredicates usage bound ps = r.checkPredicates usage bound ps := by
  have hsame : r'.checkPredicates usage bound (Predicate.mapComparisons id ps)
      = r.checkPredicates usage bound ps :=
    checkPredicates_mapComparisons h fun _ _ => ⟨rfl, rfl⟩
  rwa [Predicate.mapComparisons_id] at hsame

/-- A filter is checked predicate by predicate. -/
theorem checkPredicates_append (ps qs : List Predicate) :
    r.checkPredicates usage bound (ps ++ qs)
      = (do r.checkPredicates usage bound ps; r.checkPredicates usage bound qs) := by
  induction ps with
  | nil => rfl
  | cons p ps ih => rw [List.cons_append, checkPredicates, ih, checkPredicates, bind_assoc]

theorem checkLink_mapComparisons (h : r'.SharesTables r) (hf : ∀ c, NamesAlike (f c) c)
    (table : Nat) (link : Link) :
    r'.checkLink table (link.mapComparisons f) = r.checkLink table link := by
  unfold checkLink Link.mapComparisons
  rw [h.classes, h.isAttached, checkPredicates_mapComparisons h fun c _ => hf c]

/-! ## All checks -/

/-- A request whose comparisons keep the tables that they name is checked as before. -/
theorem validate_mapComparisons (hf : ∀ c, NamesAlike (f c) c) (r : Request) :
    (r.mapComparisons f).validate = r.validate := by
  have h : (r.mapComparisons f).SharesTables r := ⟨rfl, fun _ => Sorted.contains_map, rfl⟩
  have hlinks : ((r.mapComparisons f).links.entries.forM fun e =>
      (r.mapComparisons f).checkLink e.1 e.2)
        = r.links.entries.forM fun e => r.checkLink e.1 e.2 := by
    refine List.forM_map.trans ?_
    simp only [checkLink_mapComparisons h hf]
    rfl
  have hfilter : (r.mapComparisons f).checkPredicates .condition none
      (r.mapComparisons f).conditions = r.checkPredicates .condition none r.conditions :=
    checkPredicates_mapComparisons h fun c _ => hf c
  have hattached (usage : Usage) :
      (r.mapComparisons f).checkAttached usage = r.checkAttached usage :=
    funext fun _ => checkAttached_congr h
  unfold validate
  rw [h.linked 0, hlinks, hfilter]
  simp only [hattached]
  rfl

/-- What the checks say of a valid request with one more predicate, they say of this predicate. -/
theorem validate_filter (hv : r.validate = .ok ()) (p : Predicate) :
    (r.filter p).validate = r.checkPredicates .condition none [p] := by
  have h : (r.filter p).SharesTables r := ⟨rfl, fun _ => rfl, rfl⟩
  have hroot : r.classes ≠ [] := (valid_of_validate hv).root
  have hunlinked : ¬ r.links.contains 0 = true := by simp [(valid_of_validate hv).root_unlinked]
  unfold validate at hv
  rw [if_neg hroot, if_neg hunlinked] at hv
  simp only [check_bind_eq_ok_iff] at hv
  obtain ⟨hlinks, hfields, hconditions, horder, haliases⟩ := hv
  have hlink (table : Nat) (link : Link) :
      (r.filter p).checkLink table link = r.checkLink table link := by
    unfold checkLink
    rw [h.classes, h.isAttached, checkPredicates_congr h]
  have hattached (usage : Usage) (table : Nat) :
      (r.filter p).checkAttached usage table = r.checkAttached usage table := checkAttached_congr h
  have hfilter : (r.filter p).checkPredicates .condition none (r.conditions ++ [p])
      = r.checkPredicates .condition none [p] := by
    rw [checkPredicates_congr h, checkPredicates_append, hconditions]
    rfl
  unfold validate
  rw [h.classes, h.linked, if_neg hroot, if_neg hunlinked]
  show (do
    r.links.entries.forM fun e => (r.filter p).checkLink e.1 e.2
    r.fields.keys.forM ((r.filter p).checkAttached .selectedField)
    (r.filter p).checkPredicates .condition none (r.conditions ++ [p])
    r.order.forM fun term => (r.filter p).checkAttached .orderClause term.table
    r.aliases.entries.forM fun e => r.checkAlias e.1 e.2) = _
  simp only [hlink, hattached, hfilter, hlinks, horder, haliases, ok_bind]
  rw [funext (hattached .selectedField), hfields]
  cases r.checkPredicates .condition none [p] <;> rfl

end QueryCompiler.Request
