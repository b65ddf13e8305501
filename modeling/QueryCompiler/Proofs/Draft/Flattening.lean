import QueryCompiler.Proofs.Draft.Marker
import QueryCompiler.Proofs.Filter

/-!
# The node list behind a tree

The tree of a node list still holds the whole list: `flatten` reads from it the marks, connector
and comparison of every node, in order. A group gives back its connector to the comparison that
opens it, and what comes after a group closes it. Groups that only the end of the list closes leave
no mark, as they left none in the list.

1. `markers_append`: a sequence is flattened part by part.
2. `flatten_closeAll`: the innermost sequence of the groups in the making comes last, so what is
   put there comes behind everything else (`flatten_place`).
3. `flatten_step` and `flatten_steps`: one node adds its own marker, hence all nodes add theirs.

Main statement: `mapM_marker_of_ofNodes`.
-/

namespace QueryCompiler

open Outcome

namespace Predicate

def isGroup : Predicate → Bool
  | comparison _ _ => false
  | group _ _ => true

/-- The markers of a group: the first one opens it and has its connector. -/
def opening (closes : Bool) (connector : Option Connector) : List Marker → List Marker
  | [] => []
  | m :: ms => { m with opens := true, closes := closes, connector := connector } :: ms

mutual

/-- The markers of a predicate; `closes` if a group ends in front of it. -/
def markersOf (closes : Bool) : Predicate → List Marker
  | comparison connector c => [⟨false, closes, connector, c⟩]
  | group connector children => opening closes connector (markers false children)

/-- The markers of a sequence; `closes` if a group ends in front of it. -/
def markers (closes : Bool) : List Predicate → List Marker
  | [] => []
  | p :: ps => markersOf closes p ++ markers p.isGroup ps

end

/-- The node list of a tree, in the form of its markers. -/
def flatten (ps : List Predicate) : List Marker := markers false ps

/-- A group ends in front of what follows a sequence. -/
def endsGroup (closes : Bool) : List Predicate → Bool
  | [] => closes
  | p :: ps => endsGroup p.isGroup ps

variable {closes : Bool} {connector : Option Connector} {ps qs : List Predicate}

theorem endsGroup_concat (closes : Bool) (ps : List Predicate) (p : Predicate) :
    endsGroup closes (ps ++ [p]) = p.isGroup := by
  induction ps generalizing closes with
  | nil => rfl
  | cons q ps ih => exact ih q.isGroup

theorem markers_append (closes : Bool) (ps qs : List Predicate) :
    markers closes (ps ++ qs) = markers closes ps ++ markers (endsGroup closes ps) qs := by
  induction ps generalizing closes with
  | nil => rfl
  | cons p ps ih => rw [List.cons_append, markers, markers, ih, endsGroup, List.append_assoc]

theorem flatten_concat (ps : List Predicate) (p : Predicate) :
    flatten (ps ++ [p]) = flatten ps ++ markersOf (endsGroup false ps) p := by
  rw [flatten, markers_append, markers, markers, List.append_nil]
  rfl

theorem opening_append {ms : List Marker} (h : ms ≠ []) (ms' : List Marker) :
    opening closes connector (ms ++ ms') = opening closes connector ms ++ ms' := by
  cases ms with
  | nil => contradiction
  | cons m ms => rfl

theorem opening_ne_nil {ms : List Marker} (h : ms ≠ []) : opening closes connector ms ≠ [] := by
  cases ms with
  | nil => contradiction
  | cons m ms => exact List.cons_ne_nil _ _

/-- To visit the comparisons of a tree is to go through the list that it is flattened to. -/
theorem map_comparison_markers (closes : Bool) (ps : List Predicate) :
    (markers closes ps).map (·.comparison) = comparisons ps := by
  have hopening (closes : Bool) (connector : Option Connector) (ms : List Marker) :
      (opening closes connector ms).map (·.comparison) = ms.map (·.comparison) := by
    cases ms <;> rfl
  induction ps using sequenceInduction generalizing closes with
  | nil => rfl
  | comparison connector c ps ih =>
    rw [markers, markersOf, comparisons_comparison_cons, List.map_append, ih]
    rfl
  | group connector children ps ihc ih =>
    rw [markers, markersOf, comparisons_group_cons, List.map_append, hopening, ihc, ih]

end Predicate

namespace Pending

open Predicate

/-! ## Groups in the making -/

/-- The markers of groups in the making, given those of the innermost sequence. -/
def outerMarkers : List (List Predicate × Option Connector) → List Marker → List Marker
  | [], ms => ms
  | (before, connector) :: outer, ms =>
    outerMarkers outer (flatten before ++ opening (endsGroup false before) connector ms)

theorem flatten_closeAll (s : Pending) :
    flatten s.closeAll = outerMarkers s.outer (flatten s.current) := by
  obtain ⟨current, outer⟩ := s
  induction outer generalizing current with
  | nil => rfl
  | cons e outer ih =>
    obtain ⟨before, connector⟩ := e
    have hclose : closeAll ⟨current, (before, connector) :: outer⟩
        = closeAll ⟨before ++ [.group connector current], outer⟩ := rfl
    rw [hclose, ih, flatten_concat]
    rfl

/-- Every group in the making has something in it already. -/
def Begun (s : Pending) : Prop := s.outer ≠ [] → flatten s.current ≠ []

theorem outerMarkers_append {outer : List (List Predicate × Option Connector)} {ms : List Marker}
    (h : outer ≠ [] → ms ≠ []) (ms' : List Marker) :
    outerMarkers outer (ms ++ ms') = outerMarkers outer ms ++ ms' := by
  induction outer generalizing ms with
  | nil => rfl
  | cons e outer ih =>
    have hms := h (List.cons_ne_nil _ _)
    rw [outerMarkers, outerMarkers, opening_append hms, ← List.append_assoc]
    exact ih fun _ => List.append_ne_nil_of_right_ne_nil _ (opening_ne_nil hms)

/-- What is put in its place comes behind everything else, and it closes a group if the innermost
sequence ends with one. -/
theorem flatten_place {s : Pending} {m : Marker} (hs : s.Begun)
    (hm : m.closes = endsGroup false s.current) :
    flatten (s.place m).closeAll = flatten s.closeAll ++ [m] := by
  obtain ⟨opens, closes, connector, c⟩ := m
  rw [flatten_closeAll, flatten_closeAll, ← outerMarkers_append hs]
  cases hm
  cases opens with
  | true => rfl
  | false =>
    show outerMarkers s.outer (flatten (s.current ++ [.comparison connector c])) = _
    rw [flatten_concat]
    rfl

/-- Between two nodes no group is empty, and none has just ended. -/
structure Ready (s : Pending) : Prop where
  begun : s.Begun
  continues : endsGroup false s.current = false

theorem ready_start : start.Ready := ⟨fun h => absurd rfl h, rfl⟩

theorem ready_place (s : Pending) (m : Marker) : (s.place m).Ready := by
  obtain ⟨opens, closes, connector, c⟩ := m
  cases opens with
  | true => exact ⟨fun _ => List.cons_ne_nil _ _, rfl⟩
  | false =>
    constructor
    · intro _
      show flatten (s.current ++ [.comparison connector c]) ≠ []
      rw [flatten_concat]
      exact List.append_ne_nil_of_right_ne_nil _ (List.cons_ne_nil _ _)
    · exact endsGroup_concat ..

/-- After a closing mark the innermost sequence ends with a group, otherwise it does not. -/
theorem Ready.closeAt {s s' : Pending} {position : Nat} {closes : Bool} (hs : s.Ready)
    (h : s.closeAt position closes = .ok s') :
    s'.Begun ∧ closes = endsGroup false s'.current := by
  obtain ⟨current, outer⟩ := s
  cases closes with
  | false =>
    cases h
    exact ⟨hs.begun, hs.continues.symm⟩
  | true =>
    cases outer with
    | nil => cases h
    | cons e outer =>
      obtain ⟨before, connector⟩ := e
      cases h
      have hcurrent := hs.begun (List.cons_ne_nil _ _)
      refine ⟨fun _ => ?_, (endsGroup_concat false before (.group connector current)).symm⟩
      rw [flatten_concat]
      exact List.append_ne_nil_of_right_ne_nil _ (opening_ne_nil hcurrent)

/-! ## Nodes -/

variable {aliases : Sorted String Nat} {position : Nat}

/-- A node adds its own marker. -/
theorem flatten_step {s s' : Pending} {node : Node} (hs : s.Ready)
    (h : s.step aliases position node = .ok s') :
    s'.Ready ∧ ∃ m, node.marker aliases = .ok m ∧
      flatten s'.closeAll = flatten s.closeAll ++ [m] := by
  obtain ⟨s₁, m, hclose, hm, rfl⟩ := step_eq_ok_iff.1 h
  have hcloses : m.closes = node.closes := by
    obtain ⟨connector, c, -, -, rfl⟩ := Node.marker_eq_ok_iff.1 hm
    rfl
  obtain ⟨hbegun, hends⟩ := hs.closeAt hclose
  refine ⟨ready_place s₁ m, m, hm, ?_⟩
  rw [flatten_place hbegun (hcloses.trans hends), closeAll_closeAt hclose]

/-- Some nodes add their own markers, one for one and in order. -/
theorem flatten_steps {nodes : List Node} {s s' : Pending} (hs : s.Ready)
    (h : s.steps aliases position nodes = .ok s') :
    ∃ ms, nodes.mapM (Node.marker aliases) = .ok ms ∧
      flatten s'.closeAll = flatten s.closeAll ++ ms := by
  induction nodes generalizing position s with
  | nil =>
    cases h
    exact ⟨[], rfl, (List.append_nil _).symm⟩
  | cons node nodes ih =>
    obtain ⟨s₁, h₁, h₂⟩ := bind_eq_ok_iff.1 h
    obtain ⟨hs₁, m, hm, hflat₁⟩ := flatten_step hs h₁
    obtain ⟨ms, hms, hflat₂⟩ := ih hs₁ h₂
    refine ⟨m :: ms, ?_, ?_⟩
    · rw [List.mapM_cons, hm, ok_bind, hms]
      rfl
    · rw [hflat₂, hflat₁, List.append_assoc]
      rfl

end Pending

namespace Predicate

/-- The markers of all nodes give their comparisons. -/
theorem mapM_comparison_of_mapM_marker {aliases : Sorted String Nat} {nodes : List Node}
    {ms : List Marker} (h : nodes.mapM (Node.marker aliases) = .ok ms) :
    nodes.mapM (Node.comparison aliases) = .ok (ms.map (·.comparison)) := by
  rw [mapM_eq_ok_iff, List.forall₂_map_right_iff]
  refine (mapM_eq_ok_iff.1 h).imp fun node m hm => ?_
  obtain ⟨connector, c, -, hc, rfl⟩ := Node.marker_eq_ok_iff.1 hm
  exact hc

/-- The tree of a node list is flattened to the marks, connectors and comparisons of these very
nodes, one for one and in order. Its comparisons are therefore those of the nodes, and lists with
the same tree differ at most in how their nodes are written. -/
theorem mapM_marker_of_ofNodes {aliases : Sorted String Nat} {nodes : List Node}
    {ps : List Predicate} (h : ofNodes .autoClose aliases nodes = .ok ps) :
    nodes.mapM (Node.marker aliases) = .ok (flatten ps) ∧
      nodes.mapM (Node.comparison aliases) = .ok (comparisons ps) ∧
      ∀ aliases' nodes', ofNodes .autoClose aliases' nodes' = .ok ps →
        nodes'.mapM (Node.marker aliases') = nodes.mapM (Node.marker aliases) := by
  have hflat {aliases : Sorted String Nat} {nodes : List Node}
      (h : ofNodes .autoClose aliases nodes = .ok ps) :
      nodes.mapM (Node.marker aliases) = .ok (flatten ps) := by
    obtain ⟨s, hs, hp⟩ := bind_eq_ok_iff.1 h
    obtain ⟨ms, hms, hf⟩ := Pending.flatten_steps Pending.ready_start hs
    cases hp
    rw [hms, hf]
    rfl
  have hmarkers := hflat h
  refine ⟨hmarkers, ?_, fun aliases' nodes' h' => (hflat h').trans hmarkers.symm⟩
  rw [mapM_comparison_of_mapM_marker hmarkers, flatten, map_comparison_markers]

/-- The sample has a tree, and so it has with blanks around its connectors. -/
theorem mapM_marker_of_ofNodes_sample :
    let spaced := Node.sample.map fun node => { node with connector := " " ++ node.connector }
    ∃ ps, ofNodes .autoClose Node.sampleNames Node.sample = .ok ps ∧
      Node.sample.mapM (Node.marker Node.sampleNames) = .ok (flatten ps) ∧
      Node.sample.mapM (Node.comparison Node.sampleNames) = .ok (comparisons ps) ∧
      ofNodes .autoClose Node.sampleNames spaced = .ok ps ∧
      spaced.mapM (Node.marker Node.sampleNames)
        = Node.sample.mapM (Node.marker Node.sampleNames) := by
  have hsample : ofNodes .autoClose Node.sampleNames Node.sample = .ok _ := rfl
  obtain ⟨hmarkers, hcomparisons, hsame⟩ := mapM_marker_of_ofNodes hsample
  exact ⟨_, rfl, hmarkers, hcomparisons, rfl, hsame _ _ rfl⟩

end Predicate

end QueryCompiler
