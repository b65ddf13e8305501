import QueryCompiler.Predicate

/-!
# Filters as sequences

A filter is a sequence of predicates, each of which may be a group with a sequence of its own.
Whatever is defined along both is proved along both by `Predicate.sequenceInduction`: for a
comparison in front the rest is known, for a group in front its children and the rest.

`Occurs` says which predicates a sequence holds at any depth. Main statements:
`mem_comparisons_iff` and `mem_groups_iff`.

`mapComparisons` changes the comparisons of a sequence and nothing else. Main statements:
`comparisons_mapComparisons` and `groups_mapComparisons`.
-/

namespace QueryCompiler.Predicate

/-- Induction along a sequence and into its groups. -/
theorem sequenceInduction {motive : List Predicate → Prop} (nil : motive [])
    (comparison : ∀ connector c ps, motive ps → motive (.comparison connector c :: ps))
    (group : ∀ connector children ps, motive children → motive ps →
      motive (.group connector children :: ps)) :
    ∀ ps, motive ps
  | [] => nil
  | .comparison connector c :: ps =>
    comparison connector c ps (sequenceInduction nil comparison group ps)
  | .group connector children :: ps =>
    group connector children ps (sequenceInduction nil comparison group children)
      (sequenceInduction nil comparison group ps)
termination_by ps => sizeOf ps

mutual

/-- The sequences inside the groups of a predicate, at every depth. -/
def groupsOf : Predicate → List (List Predicate)
  | comparison _ _ => []
  | group _ children => children :: groups children

/-- The sequences inside the groups of a sequence, at every depth. -/
def groups : List Predicate → List (List Predicate)
  | [] => []
  | p :: ps => groupsOf p ++ groups ps

end

variable {connector : Option Connector} {c : Comparison} {children ps : List Predicate}

@[simp] theorem comparisons_nil : comparisons [] = [] := rfl

@[simp] theorem comparisons_comparison_cons :
    comparisons (.comparison connector c :: ps) = c :: comparisons ps := rfl

@[simp] theorem comparisons_group_cons :
    comparisons (.group connector children :: ps) = comparisons children ++ comparisons ps := rfl

@[simp] theorem groups_nil : groups [] = [] := rfl

@[simp] theorem groups_comparison_cons : groups (.comparison connector c :: ps) = groups ps := rfl

@[simp] theorem groups_group_cons :
    groups (.group connector children :: ps) = children :: (groups children ++ groups ps) := rfl

/-! ## Predicates at any depth -/

/-- A predicate stands in a sequence at some depth: as one of its elements, or inside a group. -/
inductive Occurs (p : Predicate) : List Predicate → Prop
  | here {ps : List Predicate} (h : p ∈ ps) : Occurs p ps
  | inside {ps children : List Predicate} {connector : Option Connector}
      (hg : .group connector children ∈ ps) (h : Occurs p children) : Occurs p ps

variable {p q : Predicate}

theorem not_occurs_nil : ¬ Occurs p [] := by
  rintro (h | ⟨hg, -⟩)
  · exact List.not_mem_nil h
  · exact List.not_mem_nil hg

theorem Occurs.cons (h : Occurs p ps) : Occurs p (q :: ps) := by
  cases h with
  | here h => exact .here (.tail _ h)
  | inside hg h => exact .inside (.tail _ hg) h

theorem occurs_comparison_cons_iff :
    Occurs p (.comparison connector c :: ps) ↔ p = .comparison connector c ∨ Occurs p ps := by
  constructor
  · rintro (h | ⟨hg, h⟩)
    · exact (List.mem_cons.1 h).imp_right .here
    · rcases List.mem_cons.1 hg with hg | hg
      · cases hg
      · exact .inr (.inside hg h)
  · rintro (rfl | h)
    · exact .here List.mem_cons_self
    · exact h.cons

theorem occurs_group_cons_iff :
    Occurs p (.group connector children :: ps) ↔
      p = .group connector children ∨ Occurs p children ∨ Occurs p ps := by
  constructor
  · rintro (h | ⟨hg, h⟩)
    · exact (List.mem_cons.1 h).imp_right fun h => .inr (.here h)
    · rcases List.mem_cons.1 hg with hg | hg
      · cases hg
        exact .inr (.inl h)
      · exact .inr (.inr (.inside hg h))
  · rintro (rfl | h | h)
    · exact .here List.mem_cons_self
    · exact .inside List.mem_cons_self h
    · exact h.cons

/-- The comparisons of a sequence are those that it holds at any depth. -/
theorem mem_comparisons_iff :
    c ∈ comparisons ps ↔ ∃ connector, Occurs (.comparison connector c) ps := by
  induction ps using sequenceInduction with
  | nil => simp [not_occurs_nil]
  | comparison connector c' ps ih =>
    rw [comparisons_comparison_cons, List.mem_cons, ih]
    simp only [occurs_comparison_cons_iff, exists_or, Predicate.comparison.injEq,
      exists_eq_left]
  | group connector children ps ihc ih =>
    rw [comparisons_group_cons, List.mem_append, ihc, ih]
    simp only [occurs_group_cons_iff, exists_or, reduceCtorEq, false_or]

/-- The groups of a sequence are those that it holds at any depth. -/
theorem mem_groups_iff :
    children ∈ groups ps ↔ ∃ connector, Occurs (.group connector children) ps := by
  induction ps using sequenceInduction with
  | nil => simp [not_occurs_nil]
  | comparison connector c ps ih =>
    rw [groups_comparison_cons, ih]
    simp only [occurs_comparison_cons_iff, reduceCtorEq, false_or]
  | group connector children' ps ihc ih =>
    rw [groups_group_cons, List.mem_cons, List.mem_append, ihc, ih]
    simp only [occurs_group_cons_iff, exists_or, Predicate.group.injEq, exists_eq_left]

/-! ## Changed comparisons -/

mutual

/-- A predicate with every comparison through a function. -/
def mapComparisonsOf (f : Comparison → Comparison) : Predicate → Predicate
  | comparison connector c => comparison connector (f c)
  | group connector children => group connector (mapComparisons f children)

/-- A sequence with every comparison through a function, at any depth. -/
def mapComparisons (f : Comparison → Comparison) : List Predicate → List Predicate
  | [] => []
  | p :: ps => mapComparisonsOf f p :: mapComparisons f ps

end

variable {f : Comparison → Comparison}

theorem mapComparisons_comparison_cons :
    mapComparisons f (.comparison connector c :: ps) =
      .comparison connector (f c) :: mapComparisons f ps := rfl

theorem mapComparisons_group_cons :
    mapComparisons f (.group connector children :: ps) =
      .group connector (mapComparisons f children) :: mapComparisons f ps := rfl

theorem isEmpty_mapComparisons : (mapComparisons f ps).isEmpty = ps.isEmpty := by
  cases ps <;> rfl

theorem mapComparisons_id : mapComparisons id ps = ps := by
  induction ps using sequenceInduction with
  | nil => rfl
  | comparison connector c ps ih =>
    rw [mapComparisons_comparison_cons, ih]
    rfl
  | group connector children ps ihc ih => rw [mapComparisons_group_cons, ihc, ih]

theorem comparisons_mapComparisons :
    comparisons (mapComparisons f ps) = (comparisons ps).map f := by
  induction ps using sequenceInduction with
  | nil => rfl
  | comparison connector c ps ih =>
    rw [mapComparisons_comparison_cons, comparisons_comparison_cons, ih]
    rfl
  | group connector children ps ihc ih =>
    rw [mapComparisons_group_cons, comparisons_group_cons, ihc, ih, comparisons_group_cons,
      List.map_append]

theorem groups_mapComparisons :
    groups (mapComparisons f ps) = (groups ps).map (mapComparisons f) := by
  induction ps using sequenceInduction with
  | nil => rfl
  | comparison connector c ps ih =>
    rw [mapComparisons_comparison_cons, groups_comparison_cons, ih]
    rfl
  | group connector children ps ihc ih =>
    rw [mapComparisons_group_cons, groups_group_cons, ihc, ih, groups_group_cons, List.map_cons,
      List.map_append]

/-- Changed comparisons leave the groups as filled as they were. -/
theorem filled_mapComparisons_iff :
    (∀ g ∈ groups (mapComparisons f ps), g ≠ []) ↔ ∀ g ∈ groups ps, g ≠ [] := by
  rw [groups_mapComparisons, List.forall_mem_map]
  refine forall₂_congr fun g _ => ?_
  cases g <;> simp [mapComparisons]

end QueryCompiler.Predicate
