import QueryCompiler.Proofs.Filter
import QueryCompiler.Proofs.Outcome
import QueryCompiler.Request.Validity

/-!
# What a valid request guarantees

Every check of a request is an equivalence about its success, and together they give `Valid`: the
facts about tables, links, filters and names that hold if and only if `validate` finds no fault.

Main statements: `checkPredicates_eq_ok_iff` (a filter passes exactly if its comparisons are sound
and its groups are filled) and `validate_eq_ok_iff_valid`.
-/

namespace QueryCompiler.Request

open Outcome Predicate

variable {r : Request} {usage : Usage} {bound : Option Nat} {table : Nat}

/-- A table that may be named where only the tables up to `bound` may be. -/
def Usable (r : Request) (bound : Option Nat) (table : Nat) : Prop :=
  r.isAttached table = true ∧ ∀ link ∈ bound, table ≤ link

/-- A comparison that names usable tables only, its column on the right included. -/
def Sound (r : Request) (bound : Option Nat) (c : Comparison) : Prop :=
  r.Usable bound c.table ∧ ∀ aliasName field, c.value = .column aliasName field →
    ∃ table, r.aliases.get? aliasName = some table ∧ r.Usable bound table

theorem classOf_eq_ok_iff {name : String} :
    r.classOf table = .ok name ↔ r.classes[table]? = some name := by
  unfold classOf
  cases r.classes[table]? <;> simp

theorem tableOf_eq_ok_iff {aliasName : String} :
    r.tableOf aliasName = .ok table ↔ r.aliases.get? aliasName = some table := by
  unfold tableOf
  cases r.aliases.get? aliasName <;> simp

theorem checkReference_eq_ok_iff_usable :
    r.checkReference usage bound table = .ok () ↔ r.Usable bound table :=
  checkReference_eq_ok_iff

theorem checkComparison_eq_ok_iff {c : Comparison} :
    r.checkComparison usage bound c = .ok () ↔ r.Sound bound c := by
  obtain ⟨t, field, op, value⟩ := c
  unfold checkComparison Sound
  rw [check_bind_eq_ok_iff, checkReference_eq_ok_iff_usable]
  cases value with
  | column aliasName f =>
    simp only [bind_eq_ok_iff, tableOf_eq_ok_iff, checkReference_eq_ok_iff_usable,
      Value.column.injEq]
    constructor
    · rintro ⟨ht, table, ha, hu⟩
      exact ⟨ht, by rintro _ _ ⟨rfl, rfl⟩; exact ⟨table, ha, hu⟩⟩
    · rintro ⟨ht, h⟩
      exact ⟨ht, h aliasName f ⟨rfl, rfl⟩⟩
  | none | literal _ | list _ => simp

/-- A filter passes the check exactly if all its comparisons do and no group in it is empty. -/
theorem checkPredicates_eq_ok_iff {ps : List Predicate} :
    r.checkPredicates usage bound ps = .ok () ↔
      (∀ c ∈ comparisons ps, r.Sound bound c) ∧ ∀ g ∈ groups ps, g ≠ [] := by
  induction ps using sequenceInduction with
  | nil => simp [checkPredicates]
  | comparison connector c ps ih =>
    rw [checkPredicates, checkPredicate, check_bind_eq_ok_iff, checkComparison_eq_ok_iff, ih,
      comparisons_comparison_cons, groups_comparison_cons, List.forall_mem_cons]
    exact and_assoc.symm
  | group connector children ps ihc ih =>
    have hchildren : r.checkPredicate usage bound (.group connector children) = .ok () ↔
        children ≠ [] ∧ r.checkPredicates usage bound children = .ok () := by
      cases children <;> simp [checkPredicate, checkPredicates]
    rw [checkPredicates, check_bind_eq_ok_iff, hchildren, ihc, ih, comparisons_group_cons,
      groups_group_cons]
    simp only [List.forall_mem_cons, List.forall_mem_append]
    constructor
    · rintro ⟨⟨hne, hc, hg⟩, hc', hg'⟩
      exact ⟨⟨hc, hc'⟩, hne, hg, hg'⟩
    · rintro ⟨⟨hc, hc'⟩, hne, hg, hg'⟩
      exact ⟨⟨hne, hc, hg⟩, hc', hg'⟩

theorem checkLink_eq_ok_iff {link : Link} :
    r.checkLink table link = .ok () ↔
      table < r.classes.length ∧ link.leftTable < table ∧ r.isAttached link.leftTable = true ∧
        r.checkPredicates .joinCondition (some table) link.conditions = .ok () := by
  unfold checkLink
  by_cases hc : r.classes.length ≤ table
  · rw [if_pos hc]
    simp [Nat.not_lt.2 hc]
  · rw [if_neg hc]
    by_cases hl : table ≤ link.leftTable ∨ r.isAttached link.leftTable = false
    · rw [if_pos hl]
      have : ¬ (link.leftTable < table ∧ r.isAttached link.leftTable = true) := by
        rintro ⟨hlt, ha⟩
        rcases hl with hl | hl
        · omega
        · rw [ha] at hl; cases hl
      simp only [reduceCtorEq, false_iff]
      exact fun h => this ⟨h.2.1, h.2.2.1⟩
    · rw [if_neg hl]
      simp only [not_or, Nat.not_le, Bool.not_eq_false] at hl hc
      exact ⟨fun h => ⟨hc, hl.1, hl.2, h⟩, fun h => h.2.2.2⟩

theorem checkAlias_eq_ok_iff {aliasName : String} :
    r.checkAlias aliasName table = .ok () ↔ table < r.classes.length := by
  unfold checkAlias
  by_cases h : r.classes.length ≤ table
  · rw [if_pos h]
    simp [Nat.not_lt.2 h]
  · rw [if_neg h]
    simpa using h

/-- What is known of a request in which `validate` finds no fault. -/
structure Valid (r : Request) : Prop where
  root : r.classes ≠ []
  root_unlinked : r.links.contains 0 = false
  link : ∀ e ∈ r.links.entries,
    e.1 < r.classes.length ∧ e.2.leftTable < e.1 ∧ r.isAttached e.2.leftTable = true
  link_sound : ∀ e ∈ r.links.entries, ∀ c ∈ comparisons e.2.conditions, r.Sound (some e.1) c
  link_filled : ∀ e ∈ r.links.entries, ∀ g ∈ groups e.2.conditions, g ≠ []
  field : ∀ table ∈ r.fields.keys, r.isAttached table = true
  sound : ∀ c ∈ comparisons r.conditions, r.Sound none c
  filled : ∀ g ∈ groups r.conditions, g ≠ []
  order : ∀ term ∈ r.order, r.isAttached term.table = true
  aliased : ∀ e ∈ r.aliases.entries, e.2 < r.classes.length

/-- `validate` finds no fault exactly in the requests of which all this is known. -/
theorem validate_eq_ok_iff_valid : r.validate = .ok () ↔ r.Valid := by
  unfold validate
  by_cases hroot : r.classes = []
  · rw [if_pos hroot]
    exact iff_of_false nofun fun h => h.root hroot
  rw [if_neg hroot]
  by_cases hlinked : r.links.contains 0 = true
  · rw [if_pos hlinked]
    exact iff_of_false nofun fun h => by simp [h.root_unlinked] at hlinked
  rw [if_neg hlinked]
  simp only [check_bind_eq_ok_iff, forM_eq_ok_iff, checkLink_eq_ok_iff, checkAttached_eq_ok_iff,
    checkPredicates_eq_ok_iff, checkAlias_eq_ok_iff]
  constructor
  · rintro ⟨hlinks, hfields, ⟨hsound, hfilled⟩, horder, halias⟩
    exact {
      root := hroot
      root_unlinked := by simpa using hlinked
      link := fun e he => ⟨(hlinks e he).1, (hlinks e he).2.1, (hlinks e he).2.2.1⟩
      link_sound := fun e he => (hlinks e he).2.2.2.1
      link_filled := fun e he => (hlinks e he).2.2.2.2
      field := hfields
      sound := hsound
      filled := hfilled
      order := horder
      aliased := halias }
  · intro h
    refine ⟨fun e he => ?_, h.field, ⟨h.sound, h.filled⟩, h.order, h.aliased⟩
    obtain ⟨hclass, hlt, hleft⟩ := h.link e he
    exact ⟨hclass, hlt, hleft, h.link_sound e he, h.link_filled e he⟩

theorem valid_of_validate (h : r.validate = .ok ()) : r.Valid := validate_eq_ok_iff_valid.1 h

end QueryCompiler.Request
