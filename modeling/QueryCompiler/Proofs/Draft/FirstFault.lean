import Mathlib.Data.List.Induction
import QueryCompiler.Proofs.Draft.Marker

/-!
# The first fault of a node list

A node list is refused for its first node with a fault. A node has a fault if it closes a group
where the nodes before it leave none open, or else for what its own texts and value are. Groups
that are open at the end are a fault to the strict policy alone.

1. `misread?_eq_some_iff`: what is wrong with a node by itself is why it cannot be read.
2. `step_eq_error` and `exists_step_eq_ok`: if as many groups are open as the nodes before leave
   open, a node is refused for its fault, or taken in so that this stays true.
3. `exists_steps_eq_ok`: nodes without a fault are taken in, by induction from the end.

Main statement: `ofNodes_outcome`.
-/

namespace QueryCompiler

open Outcome

/-! ## Tokens -/

namespace Operator

/-- The spellings of the comparison operators. -/
def spellings : List String :=
  ["IS NULL", "IS NOT NULL", ">", "<", ">=", "<=", "=", "!=", "LIKE", "ILIKE", "LIKE_CI", "IN",
    "NOT IN"]

/-- The spellings of the operators without a value. -/
def nullTests : List String := ["IS NULL", "IS NOT NULL"]

theorem read_eq_error {s : String} (h : Text.trim s ∉ spellings) :
    read s = .error (.unknownOperator s) := by
  have hnone : ofText? s = none := by
    unfold ofText?
    split <;> simp_all [spellings]
  rw [read, hnone]

theorem exists_read {s : String} (h : Text.trim s ∈ spellings) :
    ∃ op, read s = .ok op ∧ (op.takesValue = false ↔ Text.trim s ∈ nullTests) := by
  obtain ⟨op, hop⟩ : ∃ op, ofText? s = some op := by
    unfold ofText?
    split <;> simp_all [spellings]
  refine ⟨op, read_eq_ok_iff.2 hop, ?_⟩
  unfold ofText? at hop
  split at hop <;> cases hop <;> simp_all [takesValue, nullTests]

end Operator

namespace Connector

/-- The spellings of the connectors, in upper case. -/
def spellings : List String := ["AND", "OR"]

theorem readOptional_eq_error {s : String} (h : Text.trim s ≠ "")
    (hs : Text.keyword s ∉ spellings) : readOptional s = .error (.unknownConnector s) := by
  simp only [spellings, List.mem_cons, List.not_mem_nil, or_false, not_or] at hs
  rw [readOptional, if_neg h, read_eq, if_neg hs.1, if_neg hs.2]
  rfl

theorem exists_readOptional {s : String} (h : Text.trim s ≠ "" → Text.keyword s ∈ spellings) :
    ∃ connector, readOptional s = .ok connector := by
  by_cases hblank : Text.trim s = ""
  · exact ⟨none, readOptional_of_blank hblank⟩
  · have hs := h hblank
    simp only [spellings, List.mem_cons, List.not_mem_nil, or_false] at hs
    rw [readOptional, if_neg hblank, read_eq]
    rcases hs with hs | hs
    · exact ⟨some .and, by rw [if_pos hs]; rfl⟩
    · exact ⟨some .or, by rw [hs]; rfl⟩

end Connector

/-! ## Faults of a node -/

namespace Node

/-- How many more groups some nodes open than they close. -/
def balance (nodes : List Node) : Int := nodes.countP (·.opens) - nodes.countP (·.closes)

/-- What is wrong with a node by itself: a text that is no connector, else a text that is no
operator, else a value that cannot be read. -/
def misread? (aliases : Sorted String Nat) (node : Node) : Option Fault :=
  if Text.trim node.connector ≠ "" ∧ Text.keyword node.connector ∉ Connector.spellings then
    some (.unknownConnector node.connector)
  else if Text.trim node.operator ∉ Operator.spellings then
    some (.unknownOperator node.operator)
  else if Text.trim node.operator ∈ Operator.nullTests then none
  else
    match Value.ofJson aliases node.value with
    | .error e => some e
    | .ok _ => none

/-- What is wrong with a node after the nodes before it: a group to close where none is open comes
before all else. -/
def fault? (aliases : Sorted String Nat) (earlier : List Node) (node : Node) : Option Fault :=
  if node.closes = true ∧ balance earlier = 0 then
    some (.unbalanced earlier.length .neverOpened)
  else node.misread? aliases

/-- The node at a place has a fault. -/
def FaultAt (aliases : Sorted String Nat) (nodes : List Node) (i : Nat) (e : Fault) : Prop :=
  ∃ node, nodes[i]? = some node ∧ node.fault? aliases (nodes.take i) = some e

variable {aliases : Sorted String Nat} {nodes : List Node} {node : Node} {e : Fault}

theorem balance_concat (nodes : List Node) (node : Node) :
    balance (nodes ++ [node]) = balance nodes + node.opens.toNat - node.closes.toNat := by
  unfold balance
  rw [List.countP_append, List.countP_append, List.countP_singleton, List.countP_singleton]
  cases node.opens <;> cases node.closes <;> simp <;> omega

theorem FaultAt.append {i : Nat} (h : FaultAt aliases nodes i e) (nodes' : List Node) :
    FaultAt aliases (nodes ++ nodes') i e := by
  obtain ⟨node, hi, hf⟩ := h
  obtain ⟨hlt, -⟩ := List.getElem?_eq_some_iff.1 hi
  refine ⟨node, by rw [List.getElem?_append_left hlt, hi], ?_⟩
  rwa [List.take_append_of_le_length (Nat.le_of_lt hlt)]

/-- What is wrong with a node by itself is why it cannot be read. -/
theorem misread?_eq_some_iff : node.misread? aliases = some e ↔ node.marker aliases = .error e := by
  unfold misread? marker
  by_cases hc : Text.trim node.connector ≠ "" ∧ Text.keyword node.connector ∉ Connector.spellings
  · rw [if_pos hc, Connector.readOptional_eq_error hc.1 hc.2]
    simp
  obtain ⟨connector, hconnector⟩ := Connector.exists_readOptional fun h => by_contra fun h' =>
    hc ⟨h, h'⟩
  rw [if_neg hc, hconnector, ok_bind, comparison]
  by_cases ho : Text.trim node.operator ∉ Operator.spellings
  · rw [if_pos ho, Operator.read_eq_error ho]
    simp
  obtain ⟨op, hop, htakes⟩ := Operator.exists_read (not_not.1 ho)
  rw [if_neg ho, hop, ok_bind]
  by_cases hn : Text.trim node.operator ∈ Operator.nullTests
  · rw [if_pos hn, htakes.2 hn]
    simp
  · have hvalue : op.takesValue = true := by simpa using mt htakes.1 hn
    rw [if_neg hn, hvalue, if_pos rfl]
    cases Value.ofJson aliases node.value <;> simp

theorem exists_marker (h : node.misread? aliases = none) : ∃ m, node.marker aliases = .ok m := by
  cases hm : node.marker aliases with
  | ok m => exact ⟨m, rfl⟩
  | error e => rw [misread?_eq_some_iff.2 hm] at h; cases h

end Node

namespace Pending

open Node

/-! ## One node -/

variable {aliases : Sorted String Nat} {earlier nodes : List Node} {node : Node} {e : Fault}
  {s : Pending}

theorem closeAt_eq_error {position : Nat} (h : s.outer = []) :
    s.closeAt position true = .error (.unbalanced position .neverOpened) := by
  obtain ⟨current, outer⟩ := s
  cases h
  rfl

theorem exists_closeAt (position : Nat) {closes : Bool} (h : closes = true → s.outer ≠ []) :
    ∃ s', s.closeAt position closes = .ok s' ∧
      s'.outer.length + closes.toNat = s.outer.length := by
  obtain ⟨current, outer⟩ := s
  cases closes with
  | false => exact ⟨_, rfl, rfl⟩
  | true =>
    cases outer with
    | nil => exact absurd rfl (h rfl)
    | cons e outer => exact ⟨_, rfl, rfl⟩

theorem length_outer_place (s : Pending) (m : Marker) :
    (s.place m).outer.length = s.outer.length + m.opens.toNat := by
  unfold place
  cases m.opens <;> rfl

/-- A node with a fault is refused for it. -/
theorem step_eq_error (hs : (s.outer.length : Int) = balance earlier)
    (h : node.fault? aliases earlier = some e) :
    s.step aliases earlier.length node = .error e := by
  rw [step_eq]
  unfold fault? at h
  by_cases hc : node.closes = true ∧ balance earlier = 0
  · rw [if_pos hc] at h
    cases h
    have houter : s.outer = [] := List.length_eq_zero_iff.1 (by omega)
    rw [hc.1, closeAt_eq_error houter, error_bind]
  · rw [if_neg hc] at h
    obtain ⟨s₁, h₁, -⟩ := exists_closeAt earlier.length fun hcloses houter =>
      hc ⟨hcloses, by rw [← hs, houter]; rfl⟩
    rw [h₁, ok_bind, misread?_eq_some_iff.1 h, error_bind]

/-- A node without a fault is taken in, and the number of open groups stays the balance. -/
theorem exists_step_eq_ok (hs : (s.outer.length : Int) = balance earlier)
    (h : node.fault? aliases earlier = none) :
    ∃ s', s.step aliases earlier.length node = .ok s' ∧
      (s'.outer.length : Int) = balance (earlier ++ [node]) := by
  unfold fault? at h
  by_cases hc : node.closes = true ∧ balance earlier = 0
  · rw [if_pos hc] at h
    cases h
  · rw [if_neg hc] at h
    obtain ⟨s₁, h₁, hlength⟩ := exists_closeAt earlier.length fun hcloses houter =>
      hc ⟨hcloses, by rw [← hs, houter]; rfl⟩
    obtain ⟨m, hm⟩ := exists_marker h
    have hopens : m.opens = node.opens := by
      obtain ⟨connector, c, -, -, rfl⟩ := marker_eq_ok_iff.1 hm
      rfl
    refine ⟨s₁.place m, step_eq_ok_iff.2 ⟨s₁, m, h₁, hm, rfl⟩, ?_⟩
    rw [length_outer_place, balance_concat, hopens]
    omega

/-! ## All nodes -/

/-- Nodes without a fault are taken in, and they leave as many groups open as they open more than
they close. -/
theorem exists_steps_eq_ok (h : ∀ i e, ¬ FaultAt aliases nodes i e) :
    ∃ s, start.steps aliases 0 nodes = .ok s ∧ (s.outer.length : Int) = balance nodes := by
  induction nodes using List.reverseRecOn with
  | nil => exact ⟨start, rfl, rfl⟩
  | append_singleton nodes node ih =>
    obtain ⟨s, hs, hlength⟩ := ih fun i e hf => h i e (hf.append [node])
    have hnone : node.fault? aliases nodes = none := by
      refine Option.eq_none_iff_forall_ne_some.2 fun e he => h nodes.length e ⟨node, ?_, ?_⟩
      · simp
      · rwa [List.take_left]
    obtain ⟨s', hs', hlength'⟩ := exists_step_eq_ok hlength hnone
    refine ⟨s', ?_, hlength'⟩
    rw [steps_append, hs, ok_bind, Nat.zero_add, steps, hs', ok_bind, steps]

/-- The first node with a fault is what all are refused for. -/
theorem steps_eq_error {i : Nat} (h : FaultAt aliases nodes i e)
    (hfirst : ∀ j < i, ∀ e', ¬ FaultAt aliases nodes j e') :
    start.steps aliases 0 nodes = .error e := by
  obtain ⟨node, hi, hf⟩ := h
  obtain ⟨hlt, hnode⟩ := List.getElem?_eq_some_iff.1 hi
  have hsplit : nodes = nodes.take i ++ node :: nodes.drop (i + 1) := by
    rw [← hnode, List.getElem_cons_drop hlt, List.take_append_drop]
  obtain ⟨s, hs, hlength⟩ : ∃ s, start.steps aliases 0 (nodes.take i) = .ok s ∧
      (s.outer.length : Int) = balance (nodes.take i) := by
    refine exists_steps_eq_ok fun j e' hj => ?_
    have hji : j < i := by
      obtain ⟨node', hj', -⟩ := hj
      obtain ⟨hj', -⟩ := List.getElem?_eq_some_iff.1 hj'
      exact Nat.lt_of_lt_of_le hj' (List.length_take_le ..)
    have := hj.append (nodes.drop i)
    rw [List.take_append_drop] at this
    exact hfirst j hji e' this
  rw [hsplit, steps_append, hs, ok_bind, Nat.zero_add, steps, step_eq_error hlength hf, error_bind]

end Pending

namespace Predicate

open Node

/-- How a node list ends. If any node has a fault, the first such node decides under each policy.
Otherwise the strict policy refuses groups that are left open, with their number, and in all other
cases there is a tree; it is the same one under both policies. -/
theorem ofNodes_outcome (aliases : Sorted String Nat) (nodes : List Node) :
    (∀ policy i e, FaultAt aliases nodes i e → (∀ j < i, ∀ e', ¬ FaultAt aliases nodes j e') →
      ofNodes policy aliases nodes = .error e) ∧
    ((∀ i e, ¬ FaultAt aliases nodes i e) →
      (∀ k : Nat, 0 < k → balance nodes = k →
        ofNodes .strict aliases nodes = .error (.unbalanced nodes.length (.leftOpen k))) ∧
      ∀ policy, ¬ (policy = .strict ∧ 0 < balance nodes) →
        ∃ ps, ofNodes policy aliases nodes = .ok ps) ∧
    ∀ ps, ofNodes .strict aliases nodes = .ok ps → ofNodes .autoClose aliases nodes = .ok ps := by
  refine ⟨fun policy i e h hfirst => ?_, fun h => ?_, fun ps h => ?_⟩
  · rw [ofNodes, Pending.steps_eq_error h hfirst, error_bind]
  · obtain ⟨s, hs, hlength⟩ := Pending.exists_steps_eq_ok h
    constructor
    · intro k hk hbalance
      have hk' : s.outer.length = k := by omega
      have houter : s.outer.isEmpty = false := by
        rw [List.isEmpty_eq_false_iff, ← List.length_pos_iff]
        omega
      rw [ofNodes, hs, ok_bind, Pending.finish, houter, if_neg Bool.false_ne_true, hk']
    · intro policy hpolicy
      rw [ofNodes, hs, ok_bind]
      cases policy with
      | autoClose => exact ⟨_, rfl⟩
      | strict =>
        have houter : s.outer = [] := by
          refine List.length_eq_zero_iff.1 ?_
          have : ¬ 0 < balance nodes := fun hpos => hpolicy ⟨rfl, hpos⟩
          omega
        exact ⟨_, Pending.finish_strict.2 ⟨houter, rfl⟩⟩
  · obtain ⟨s, hs, hp⟩ := bind_eq_ok_iff.1 h
    rw [ofNodes, hs, ok_bind]
    exact (Pending.finish_strict.1 hp).2

/-- All three parts speak of the sample: it leaves two groups open, its first node alone leaves
none, and a closing node behind that one is refused for its mark before its other faults. -/
theorem ofNodes_outcome_sample :
    let closing : Node := ⟨0, "id", "<>", .null, false, true, "XOR"⟩
    ofNodes .strict sampleNames (sample.take 1 ++ [closing]) = .error (.unbalanced 1 .neverOpened) ∧
    ofNodes .strict sampleNames sample = .error (.unbalanced 5 (.leftOpen 2)) ∧
    (∃ ps, ofNodes .autoClose sampleNames sample = .ok ps) ∧
    ∃ ps, ofNodes .strict sampleNames (sample.take 1) = .ok ps ∧
      ofNodes .autoClose sampleNames (sample.take 1) = .ok ps := by
  intro closing
  obtain ⟨hfault, -, -⟩ := ofNodes_outcome sampleNames (sample.take 1 ++ [closing])
  obtain ⟨-, hsample, -⟩ := ofNodes_outcome sampleNames sample
  obtain ⟨-, hfirst, hsame⟩ := ofNodes_outcome sampleNames (sample.take 1)
  have hnone : ∀ i e, ¬ FaultAt sampleNames sample i e := by
    rintro (_ | _ | _ | _ | _ | i) e ⟨node, hi, hf⟩ <;> cases hi <;> cases hf
  have hnone' : ∀ i e, ¬ FaultAt sampleNames (sample.take 1) i e := by
    rintro (_ | i) e ⟨node, hi, hf⟩
    · cases hi
      cases hf
    · cases hi
  refine ⟨hfault .strict 1 _ ⟨closing, rfl, rfl⟩ ?_, (hsample hnone).1 2 (by decide) rfl,
    (hsample hnone).2 .autoClose (by decide), ?_⟩
  · intro j hj e' he'
    obtain rfl : j = 0 := by omega
    exact hnone' 0 e' he'
  · obtain ⟨ps, hps⟩ := (hfirst hnone').2 .strict (by decide)
    exact ⟨ps, hps, hsame ps hps⟩

end Predicate

end QueryCompiler
