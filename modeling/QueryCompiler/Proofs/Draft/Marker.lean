import QueryCompiler.Draft.Grouping
import QueryCompiler.Proofs.Outcome

/-!
# Nodes that have been read

A `Marker` is what a node says once its texts are read: its marks, its connector and its
comparison. Of the groups in the making a node ends one, if it says so; then it is read, and what
it says is put in its place.

Main statements: `step_eq` (these three steps) and `closeAll_closeAt` (to end a group early changes
nothing in the tree).
-/

namespace QueryCompiler

open Outcome

/-- A connector is one of two words, in whatever case. -/
theorem Connector.read_eq (s : String) :
    read s =
      if Text.keyword s = "AND" then .ok and
      else if Text.keyword s = "OR" then .ok or
      else .error (.unknownConnector s) := by
  by_cases hand : Text.keyword s = "AND"
  · simp [read, ofText?, hand]
  by_cases hor : Text.keyword s = "OR"
  · simp [read, ofText?, hor]
  · simp [read, ofText?, hand, hor]

/-- A comparison with its connector and the marks of brackets. -/
structure Marker where
  opens : Bool
  closes : Bool
  connector : Option Connector
  comparison : Comparison
deriving DecidableEq

/-- What a node says. -/
def Node.marker (aliases : Sorted String Nat) (node : Node) : Except Fault Marker := do
  let connector ← Connector.readOptional node.connector
  let c ← node.comparison aliases
  return ⟨node.opens, node.closes, connector, c⟩

theorem Node.marker_eq_ok_iff {aliases : Sorted String Nat} {node : Node} {m : Marker} :
    node.marker aliases = .ok m ↔
      ∃ connector c, Connector.readOptional node.connector = .ok connector ∧
        node.comparison aliases = .ok c ∧ m = ⟨node.opens, node.closes, connector, c⟩ :=
  bind_bind_pure_eq_ok_iff

namespace Pending

/-- Puts what a node says behind everything else, in a group of its own if it opens one. -/
def place (s : Pending) (m : Marker) : Pending :=
  if m.opens then s.begin m.connector m.comparison
  else s.add (.comparison m.connector m.comparison)

variable {aliases : Sorted String Nat} {position : Nat} {s s' : Pending} {node : Node}

theorem step_eq (aliases : Sorted String Nat) (position : Nat) (s : Pending) (node : Node) :
    s.step aliases position node = (do
      let s ← s.closeAt position node.closes
      let m ← node.marker aliases
      return s.place m) := by
  unfold step Node.marker
  cases s.closeAt position node.closes with
  | error e => rw [error_bind, error_bind]
  | ok s =>
    rw [ok_bind, ok_bind, bind_assoc]
    refine congrArg _ (funext fun connector => ?_)
    rw [bind_assoc]
    refine congrArg _ (funext fun c => ?_)
    unfold place
    cases node.opens <;> rfl

theorem step_eq_ok_iff :
    s.step aliases position node = .ok s' ↔
      ∃ s₁ m, s.closeAt position node.closes = .ok s₁ ∧ node.marker aliases = .ok m ∧
        s' = s₁.place m := by
  rw [step_eq]
  exact bind_bind_pure_eq_ok_iff

/-- To end a group early changes nothing in the tree that comes of ending all of them. -/
theorem closeAll_closeAt {closes : Bool} (h : s.closeAt position closes = .ok s') :
    s'.closeAll = s.closeAll := by
  obtain ⟨current, outer⟩ := s
  cases closes with
  | false =>
    cases h
    rfl
  | true =>
    cases outer with
    | nil => cases h
    | cons e outer =>
      cases h
      rfl

end Pending

/-! ## A list with all marks -/

namespace Node

/-- Names for the tables of `sample`. -/
def sampleNames : Sorted String Nat := (∅ : Sorted String Nat).insert "user" 0

/-- Two groups one after the other, the second of them with a group in it. Both of these are left
open at the end. -/
def sample : List Node := [
  ⟨0, "age", ">", .int 18, false, false, ""⟩,
  ⟨1, "total", " >= ", .array [.text "user", .text "credit"], true, false, "and"⟩,
  ⟨1, "status", "IS NULL", .text "x", false, false, "OR "⟩,
  ⟨0, "id", "IN", .array [.int 7, .text "a"], true, true, "Or"⟩,
  ⟨0, "name", "LIKE_CI", .text "A%", true, false, " "⟩]

end Node

end QueryCompiler
