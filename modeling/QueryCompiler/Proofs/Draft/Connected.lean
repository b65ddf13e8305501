import QueryCompiler.Proofs.Draft.Expressible

/-!
# Connectors between predicates

In a well-connected filter connectors stand between the elements of a sequence and nowhere else.
Whether the tree of a node list is well-connected shows in the list: every group begins with a
comparison without connector, its own connector is the one of its first node, and so each node but
the first of all brings a connector that stands between two elements.

1. `linked_iff_chained`: what well-connected means, along a sequence and into its groups.
2. `linked_iff_markers`: the same in terms of the markers of a sequence.

Main statement: `wellConnected_iff_of_ofNodes`.
-/

namespace QueryCompiler.Predicate

open Outcome

/-! ## Well-connected filters -/

/-- There is a first element, which has no connector, and every later one has one. -/
def Joined (ps : List Predicate) : Prop :=
  ∃ p later, ps = p :: later ∧ p.connector = none ∧ ∀ p' ∈ later, p'.connector ≠ none

/-- Connectors stand between elements and nowhere else, in a sequence and in all its groups. -/
def WellConnected (ps : List Predicate) : Prop := ∀ qs ∈ ps :: groups ps, Joined qs

/-- Some connectors in a row, from the start of a sequence or from some later element on. -/
def Chained (first : Bool) : List (Option Connector) → Prop
  | [] => first = false
  | connector :: later => (connector = none ↔ first = true) ∧ ∀ connector ∈ later, connector ≠ none

mutual

/-- A predicate has a connector unless it is the first of its sequence. -/
def LinkedOf (first : Bool) : Predicate → Prop
  | comparison connector _ => connector = none ↔ first = true
  | group connector children => (connector = none ↔ first = true) ∧ Linked true children

/-- A well-connected sequence, or what follows its first elements. -/
def Linked (first : Bool) : List Predicate → Prop
  | [] => first = false
  | p :: ps => LinkedOf first p ∧ Linked false ps

end

variable {first : Bool} {connector : Option Connector} {c : Comparison}
  {children ps : List Predicate}

theorem linked_nil : Linked first [] ↔ first = false := Iff.rfl

theorem linked_comparison_cons :
    Linked first (.comparison connector c :: ps) ↔
      (connector = none ↔ first = true) ∧ Linked false ps := Iff.rfl

theorem linked_group_cons :
    Linked first (.group connector children :: ps) ↔
      (connector = none ↔ first = true) ∧ Linked true children ∧ Linked false ps := and_assoc

theorem chained_false_iff {connectors : List (Option Connector)} :
    Chained false connectors ↔ ∀ connector ∈ connectors, connector ≠ none := by
  cases connectors with
  | nil => exact ⟨fun _ _ h => absurd h List.not_mem_nil, fun _ => rfl⟩
  | cons connector later =>
    rw [Chained, List.forall_mem_cons, iff_false_intro Bool.false_ne_true, iff_false]

/-- Where a row of connectors goes on, they go on standing between elements. -/
theorem chained_cons_iff {later : List (Option Connector)} :
    Chained first (connector :: later) ↔
      (connector = none ↔ first = true) ∧ Chained false later := by
  rw [chained_false_iff]
  rfl

theorem chained_false_append {connectors connectors' : List (Option Connector)} :
    Chained false (connectors ++ connectors') ↔
      Chained false connectors ∧ Chained false connectors' := by
  rw [chained_false_iff, chained_false_iff, chained_false_iff, List.forall_mem_append]

theorem chained_true_iff : Chained true (ps.map Predicate.connector) ↔ Joined ps := by
  cases ps with
  | nil => exact ⟨fun h => absurd h.symm Bool.false_ne_true, fun ⟨_, _, h, _⟩ => by cases h⟩
  | cons p later =>
    rw [List.map_cons, Chained, List.forall_mem_map, iff_true_intro rfl, iff_true]
    constructor
    · intro h
      exact ⟨p, later, rfl, h⟩
    · rintro ⟨_, _, h, hjoined⟩
      cases h
      exact hjoined

/-- What a sequence brings itself, and what its groups bring. -/
theorem linked_iff_chained :
    Linked first ps ↔
      Chained first (ps.map Predicate.connector) ∧ ∀ qs ∈ groups ps, Joined qs := by
  induction ps using sequenceInduction generalizing first with
  | nil => simp [Linked, Chained]
  | comparison connector c ps ih =>
    rw [linked_comparison_cons, ih, List.map_cons, chained_cons_iff, and_assoc]
    rfl
  | group connector children ps ihc ih =>
    rw [linked_group_cons, ih, ihc, List.map_cons, chained_cons_iff, groups_group_cons,
      List.forall_mem_cons, List.forall_mem_append, chained_true_iff]
    show _ ∧ _ ↔ ((connector = none ↔ first = true) ∧ _) ∧ _
    tauto

theorem wellConnected_iff_linked : WellConnected ps ↔ Linked true ps := by
  rw [linked_iff_chained, chained_true_iff, WellConnected, List.forall_mem_cons]

/-! ## Connectors of nodes -/

/-- If groups begin plainly, connectors stand between elements in a sequence if and only if they do
among its markers. -/
theorem linked_iff_markers (closes : Bool) (h : ∀ children ∈ groups ps, BeginsPlain children) :
    Linked first ps ↔ Chained first ((markers closes ps).map (·.connector)) := by
  induction ps using sequenceInduction generalizing first closes with
  | nil => rfl
  | comparison connector c ps ih =>
    rw [linked_comparison_cons, ih false h]
    exact chained_cons_iff.symm
  | group connector children ps ihc ih =>
    rw [groups_group_cons, List.forall_mem_cons, List.forall_mem_append] at h
    obtain ⟨hbegins, hchildren, hps⟩ := h
    obtain ⟨c, rest, rfl⟩ := hbegins
    -- The first comparison of the group has no connector, so the group's own takes its place.
    have hmarkers : markers closes (.group connector (.comparison none c :: rest) :: ps)
        = ⟨true, closes, connector, c⟩ :: (markers false rest ++ markers true ps) := rfl
    have hopening : markers false (.comparison none c :: rest)
        = ⟨false, false, none, c⟩ :: markers false rest := rfl
    rw [linked_group_cons, ihc false hchildren, ih true hps, hmarkers, hopening,
      List.map_cons, List.map_cons, List.map_append, chained_cons_iff, chained_cons_iff,
      chained_false_append, iff_true_intro rfl, iff_true_intro rfl, iff_self, true_and]

theorem readOptional_eq_none_iff {s : String} (h : Connector.readOptional s = .ok connector) :
    connector = none ↔ Text.trim s = "" := by
  unfold Connector.readOptional at h
  by_cases hs : Text.trim s = ""
  · rw [if_pos hs] at h
    cases h
    exact iff_of_true rfl hs
  · rw [if_neg hs] at h
    obtain ⟨c, -, rfl⟩ := map_eq_ok_iff.1 h
    exact iff_of_false nofun hs

/-- The markers of nodes have a connector where the nodes have a text that is not blank. -/
theorem chained_connectors_iff {aliases : Sorted String Nat} {nodes : List Node}
    {ms : List Marker} (h : nodes.mapM (Node.marker aliases) = .ok ms) :
    Chained true (ms.map (·.connector)) ↔
      ∃ node later, nodes = node :: later ∧ Text.trim node.connector = "" ∧
        ∀ node' ∈ later, Text.trim node'.connector ≠ "" := by
  have hblank {node : Node} {m : Marker} (hm : node.marker aliases = .ok m) :
      m.connector = none ↔ Text.trim node.connector = "" := by
    obtain ⟨connector, c, hconnector, -, rfl⟩ := Node.marker_eq_ok_iff.1 hm
    exact readOptional_eq_none_iff hconnector
  have hlater {nodes : List Node} {ms : List Marker}
      (h : List.Forall₂ (fun node m => node.marker aliases = .ok m) nodes ms) :
      (∀ m ∈ ms, m.connector ≠ none) ↔ ∀ node ∈ nodes, Text.trim node.connector ≠ "" := by
    induction h with
    | nil =>
      exact ⟨fun _ _ h => absurd h List.not_mem_nil, fun _ _ h => absurd h List.not_mem_nil⟩
    | cons hm _ ih => rw [List.forall_mem_cons, List.forall_mem_cons, ih, ne_eq, hblank hm]
  cases mapM_eq_ok_iff.1 h with
  | nil => exact ⟨fun h => absurd h.symm Bool.false_ne_true, fun ⟨_, _, h, _⟩ => by cases h⟩
  | @cons node m nodes ms hm hms =>
    rw [List.map_cons, Chained, List.forall_mem_map, iff_true_intro rfl, iff_true, hlater hms,
      hblank hm]
    constructor
    · intro hnodes
      exact ⟨node, nodes, rfl, hnodes⟩
    · rintro ⟨_, _, heq, hnodes⟩
      cases heq
      exact hnodes

/-- The tree of a node list is well-connected if and only if the connector of the first node is
blank and that of no other node is. -/
theorem wellConnected_iff_of_ofNodes {policy : Policy} {aliases : Sorted String Nat}
    {nodes : List Node} (h : ofNodes policy aliases nodes = .ok ps) :
    WellConnected ps ↔
      ∃ node later, nodes = node :: later ∧ Text.trim node.connector = "" ∧
        ∀ node' ∈ later, Text.trim node'.connector ≠ "" := by
  rw [wellConnected_iff_linked, linked_iff_markers false (expressible_of_ofNodes h).begins]
  exact chained_connectors_iff (mapM_marker_eq_flatten h)

end QueryCompiler.Predicate
