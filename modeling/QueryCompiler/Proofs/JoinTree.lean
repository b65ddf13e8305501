import Mathlib.Combinatorics.SimpleGraph.Acyclic
import QueryCompiler.Proofs.Coherence
import QueryCompiler.Proofs.Sql.Scope

/-!
# The tree of joins

A link leads from its table to the one on its left. The checks of a request look at one link at a
time: the table on the left comes earlier and is attached. This is enough for every table to be led
to the root, whatever the keys of the links are.

1. `exists_left` and `lt_of_left`: one step to the left goes from an attached table that is not the
   root to an attached table with a smaller index.
2. `ancestor_cases`: after `n` steps the root was met, or the index is smaller by `n` at least.
3. `joinGraph_connected` and `joinGraph_isAcyclic`: in a cycle the largest table would have two
   neighbours on its left.

Main statement: `joins_form_tree`.
-/

namespace QueryCompiler.Request

/-- The table that a table is joined to. -/
def left? (r : Request) (table : Nat) : Option Nat := (r.links.get? table).map Link.leftTable

/-- The table that is met after so many steps to the left. -/
def ancestor? (r : Request) (table : Nat) : (steps : Nat) → Option Nat
  | 0 => some table
  | steps + 1 => (r.ancestor? table steps).bind r.left?

/-- The attached tables, each next to the one that it is joined to. -/
def joinGraph (r : Request) : SimpleGraph {table // r.Attached table} :=
  SimpleGraph.fromRel fun t u => r.left? t = some u.1

variable {r : Request} {i j n : Nat}

/-! ## One step -/

theorem attached_of_contains (hr : r.Coherent) (h : r.links.contains i = true) : r.Attached i := by
  obtain ⟨link, hlink⟩ := Option.isSome_iff_exists.1 h
  exact ⟨(hr.link i link hlink).1, .inr ⟨link, hlink⟩⟩

theorem eq_zero_or_contains_of_attached (h : r.Attached i) :
    i = 0 ∨ r.links.contains i = true := by
  rcases h.2 with h0 | ⟨link, hlink⟩
  · exact .inl h0
  · exact .inr (Option.isSome_iff_exists.2 ⟨link, hlink⟩)

/-- A step leads to an attached table with a smaller index. -/
theorem lt_of_left (hr : r.Coherent) (h : r.left? i = some j) : j < i ∧ r.Attached j := by
  obtain ⟨link, hlink, rfl⟩ := Option.map_eq_some_iff.1 h
  obtain ⟨-, hlt, hattached⟩ := hr.link i link hlink
  exact ⟨hlt, hattached⟩

/-- From every attached table but the root there is a step. -/
theorem exists_left (h : r.Attached i) (hi : i ≠ 0) : ∃ j, r.left? i = some j := by
  obtain ⟨link, hlink⟩ := h.2.resolve_left hi
  exact ⟨link.leftTable, Option.map_eq_some_iff.2 ⟨link, hlink, rfl⟩⟩

/-! ## Many steps -/

theorem ancestor_succ {a b : Nat} (ha : r.ancestor? i n = some a)
    (hb : r.ancestor? i (n + 1) = some b) : r.left? a = some b := by
  rwa [ancestor?, ha, Option.bind_some] at hb

theorem attached_of_ancestor (hr : r.Coherent) (hi : r.Attached i) {a : Nat}
    (h : r.ancestor? i n = some a) : r.Attached a := by
  cases n with
  | zero =>
    cases h
    exact hi
  | succ n =>
    obtain ⟨b, -, hleft⟩ := Option.bind_eq_some_iff.1 h
    exact (lt_of_left hr hleft).2

/-- The root was met within `n` steps, or the `n`th step led that far below. -/
theorem ancestor_cases (hr : r.Coherent) (hi : r.Attached i) (n : Nat) :
    (∃ m ≤ n, r.ancestor? i m = some 0) ∨ ∃ a, r.ancestor? i n = some a ∧ a + n ≤ i := by
  induction n with
  | zero => exact .inr ⟨i, rfl, Nat.le_refl i⟩
  | succ n ih =>
    rcases ih with ⟨m, hm, h0⟩ | ⟨a, ha, hle⟩
    · exact .inl ⟨m, Nat.le_succ_of_le hm, h0⟩
    · by_cases h0 : a = 0
      · exact .inl ⟨n, Nat.le_succ n, h0 ▸ ha⟩
      · obtain ⟨b, hb⟩ := exists_left (attached_of_ancestor hr hi ha) h0
        have hlt : b < a := (lt_of_left hr hb).1
        refine .inr ⟨b, ?_, by omega⟩
        rw [ancestor?, ha, Option.bind_some, hb]

theorem exists_ancestor_eq_root (hr : r.Coherent) (hi : r.Attached i) :
    ∃ m ≤ i, r.ancestor? i m = some 0 := by
  rcases ancestor_cases hr hi i with h | ⟨a, ha, hle⟩
  · exact h
  · obtain rfl : a = 0 := by omega
    exact ⟨i, Nat.le_refl i, ha⟩

/-! ## The graph -/

variable {t u : {table // r.Attached table}}

theorem joinGraph_adj_iff :
    r.joinGraph.Adj t u ↔ t ≠ u ∧ (r.left? t = some u.1 ∨ r.left? u = some t.1) :=
  SimpleGraph.fromRel_adj ..

theorem adj_of_left (hr : r.Coherent) (h : r.left? t = some u.1) : r.joinGraph.Adj t u := by
  refine joinGraph_adj_iff.2 ⟨?_, .inl h⟩
  rintro rfl
  exact absurd (lt_of_left hr h).1 (Nat.lt_irrefl _)

/-- Of two neighbours the larger one is joined to the smaller one. -/
theorem left_of_adj (hr : r.Coherent) (h : r.joinGraph.Adj t u) (hle : u.1 ≤ t.1) :
    r.left? t = some u.1 := by
  rcases (joinGraph_adj_iff.1 h).2 with hleft | hleft
  · exact hleft
  · have := (lt_of_left hr hleft).1
    omega

theorem joinGraph_connected (hr : r.Coherent) : r.joinGraph.Connected := by
  have hroot : r.Attached 0 := ⟨List.length_pos_iff.2 hr.root, .inl rfl⟩
  have hreach (i : Nat) (hi : r.Attached i) : r.joinGraph.Reachable ⟨i, hi⟩ ⟨0, hroot⟩ := by
    induction i using Nat.strong_induction_on with
    | _ i ih =>
      by_cases h0 : i = 0
      · subst h0
        exact .refl _
      · obtain ⟨j, hj⟩ := exists_left hi h0
        obtain ⟨hlt, hattached⟩ := lt_of_left hr hj
        have hadj : r.joinGraph.Adj ⟨i, hi⟩ ⟨j, hattached⟩ := adj_of_left hr hj
        exact hadj.reachable.trans (ih j hlt hattached)
  exact {
    preconnected := fun t u => (hreach t t.2).trans (hreach u u.2).symm
    nonempty := ⟨⟨0, hroot⟩⟩ }

/-- The largest table of a cycle has a neighbour on either side, and is joined to both. -/
theorem joinGraph_isAcyclic (hr : r.Coherent) : r.joinGraph.IsAcyclic := by
  intro t c hc
  obtain ⟨m, hm, hmax⟩ := c.support.toFinset.exists_max_image Subtype.val
    ⟨t, List.mem_toFinset.2 c.start_mem_support⟩
  rw [List.mem_toFinset] at hm
  have hrotated : (c.rotate m hm).IsCycle := hc.rotate hm
  have hle {u : {table // r.Attached table}} (hu : u ∈ (c.rotate m hm).support) : u.1 ≤ m.1 :=
    hmax u (List.mem_toFinset.2 ((c.mem_support_rotate_iff m hm).1 hu))
  have hsnd := left_of_adj hr (SimpleGraph.Walk.adj_snd hrotated.not_nil)
    (hle (SimpleGraph.Walk.getVert_mem_support _ 1))
  have hpenultimate := left_of_adj hr (SimpleGraph.Walk.adj_penultimate hrotated.not_nil).symm
    (hle (SimpleGraph.Walk.getVert_mem_support _ _))
  rw [hsnd, Option.some.injEq] at hpenultimate
  exact hrotated.snd_ne_penultimate (Subtype.ext hpenultimate)

/-- The joins of a valid request form a tree with the root table at its root. From the table of a
link the steps to the left lead to the root, in no more steps than its index, and each step leads to
a smaller index, which is the root or the table of a link. So there is no cycle, and each table of
the FROM part is led to the root. -/
theorem joins_form_tree (r : Request) (hv : r.validate = .ok ()) :
    (∀ i, r.links.contains i = true →
      (∃ n ≤ i, r.ancestor? i n = some 0) ∧
      (∀ n a b, r.ancestor? i n = some a → r.ancestor? i (n + 1) = some b → b < a) ∧
      ∀ n a, r.ancestor? i n = some a → a = 0 ∨ r.links.contains a = true) ∧
    r.joinGraph.IsTree ∧
    ∀ (k : Compiler) source, k.source r = .ok source →
      ∀ table ∈ source.tables, ∃ n ≤ table, r.ancestor? table n = some 0 := by
  have hr : r.Coherent := (validate_eq_ok_iff_coherent r).1 hv
  refine ⟨fun i hi => ?_, ⟨joinGraph_connected hr, joinGraph_isAcyclic hr⟩, ?_⟩
  · have hattached : r.Attached i := attached_of_contains hr hi
    refine ⟨exists_ancestor_eq_root hr hattached, fun n a b ha hb => ?_, fun n a ha => ?_⟩
    · exact (lt_of_left hr (ancestor_succ ha hb)).1
    · exact eq_zero_or_contains_of_attached (attached_of_ancestor hr hattached ha)
  · intro k source hs table ht
    rw [(Compiler.scoped_source (valid_of_validate hv) hs).1] at ht
    refine exists_ancestor_eq_root hr ?_
    rcases List.mem_cons.1 ht with rfl | ht
    · exact ⟨List.length_pos_iff.2 hr.root, .inl rfl⟩
    · exact attached_of_contains hr (Sorted.mem_keys_iff.1 ht)

/-- In the sample the items are joined to the orders, and these to the users. -/
theorem joins_form_tree_sample :
    Request.sample.validate = .ok () ∧ Request.sample.links.contains 2 = true ∧
      Request.sample.ancestor? 2 1 = some 1 ∧ (∃ n ≤ 2, Request.sample.ancestor? 2 n = some 0) ∧
      Request.sample.joinGraph.IsTree := by
  obtain ⟨hlinks, htree, -⟩ := joins_form_tree .sample rfl
  exact ⟨rfl, rfl, rfl, (hlinks 2 rfl).1, htree⟩

end QueryCompiler.Request
