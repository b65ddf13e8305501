import QueryCompiler.Proofs.Draft.Marker
import QueryCompiler.Sql.Condition

/-!
# Conditions written without a tree

A node list can be written as a condition in one pass: the text goes into one buffer, and of the
open brackets only the number is kept (`FlatCondition`). The tree that `Predicate.ofNodes` builds
is written to the same text.

1. `Pending.sql` is what the groups in the making say so far; each operation on them writes one
   more piece at its end (`sql_add`, `sql_begin`, `sql_close`, `sql_closeAll`).
2. `Pending.flat` forgets the tree and keeps that text with the number of open groups. One node
   moves both sides alike (`flat_step`), hence so do all nodes (`flat_steps`).
3. What the tree refuses is refused by the text too (`step_error`, `steps_error`).

Main statement: `treeText_eq_ok_iff_write`.
-/

namespace QueryCompiler

open Outcome

/-- A condition in the making: its text so far, and the number of open brackets. -/
structure FlatCondition where
  text : String
  depth : Nat

namespace FlatCondition

def start : FlatCondition := ⟨"", 0⟩

/-- Writes a closing bracket where a node says so; refused if no bracket is open. -/
def closeAt (position : Nat) (closes : Bool) (s : FlatCondition) : Except Fault FlatCondition :=
  if closes then
    if s.depth = 0 then .error (.unbalanced position .neverOpened)
    else .ok ⟨s.text ++ ")", s.depth - 1⟩
  else .ok s

/-- Writes what connects a node to the one before it: nothing if its text for that is blank, else
the text in upper case between blanks; refused if this is neither `AND` nor `OR`. -/
def connect (text : String) (s : FlatCondition) : Except Fault FlatCondition :=
  let word := Text.keyword text
  if Text.trim text = "" then .ok s
  else if word = "AND" ∨ word = "OR" then .ok { s with text := s.text ++ (" " ++ word ++ " ") }
  else .error (.unknownConnector text)

/-- Writes an opening bracket where a node says so. -/
def openAt (opens : Bool) (s : FlatCondition) : FlatCondition :=
  if opens then ⟨s.text ++ "(", s.depth + 1⟩ else s

/-- Takes in one node: it closes, connects, opens, and only then compares. -/
def step (k : Compiler) (r : Request) (aliases : Sorted String Nat) (position : Nat)
    (s : FlatCondition) (node : Node) : Except Fault FlatCondition := do
  let s ← s.closeAt position node.closes
  let s ← s.connect node.connector
  let c ← node.comparison aliases
  let q ← k.comparison r c
  let s := s.openAt node.opens
  return { s with text := s.text ++ q.toText }

/-- Takes in the nodes from a position on. -/
def steps (k : Compiler) (r : Request) (aliases : Sorted String Nat) (position : Nat)
    (s : FlatCondition) : List Node → Except Fault FlatCondition
  | [] => .ok s
  | node :: nodes => do
    steps k r aliases (position + 1) (← s.step k r aliases position node) nodes

/-- The text with one closing bracket for each open one. -/
def finish (s : FlatCondition) : String := s.text ++ String.ofList (List.replicate s.depth ')')

/-- The condition of a node list, in one pass. -/
def write (k : Compiler) (r : Request) (aliases : Sorted String Nat) (nodes : List Node) :
    Except Fault String := do
  let s ← start.steps k r aliases 0 nodes
  return s.finish

end FlatCondition

/-- The condition of a node list, by way of its tree. -/
def Compiler.treeText (k : Compiler) (r : Request) (aliases : Sorted String Nat)
    (nodes : List Node) : Except Fault String := do
  let ps ← Predicate.ofNodes .autoClose aliases nodes
  let q ← k.conditions r ps
  return q.toText

namespace Pending

open Compiler

/-! ## What the groups in the making say -/

/-- What stands before the innermost sequence, from the outermost group inwards. -/
def outerSql (k : Compiler) (r : Request) :
    List (List Predicate × Option Connector) → Except Fault Sql
  | [] => .ok []
  | (before, connector) :: outer => do
    let q ← outerSql k r outer
    let q' ← k.conditions r before
    return q ++ q' ++ connectorSql connector ++ [.words "("]

/-- All that is written when the groups are left open. -/
def sql (k : Compiler) (r : Request) (s : Pending) : Except Fault Sql := do
  let q ← outerSql k r s.outer
  let q' ← k.conditions r s.current
  return q ++ q'

variable {k : Compiler} {r : Request}

theorem sql_add (s : Pending) (p : Predicate) :
    (s.add p).sql k r = (do
      let q ← s.sql k r
      let q' ← k.condition r p
      return q ++ q') := by
  unfold sql add
  rw [conditions_append, conditions_cons]
  cases outerSql k r s.outer with
  | error e => rfl
  | ok q₀ =>
    cases k.conditions r s.current with
    | error e => rfl
    | ok q₁ => cases k.condition r p <;> simp [conditions]

theorem sql_begin (s : Pending) (connector : Option Connector) (c : Comparison) :
    (s.begin connector c).sql k r = (do
      let q ← s.sql k r
      let q' ← k.comparison r c
      return q ++ (connectorSql connector ++ [.words "("] ++ q')) := by
  unfold sql begin
  simp only [outerSql, conditions, condition]
  cases outerSql k r s.outer with
  | error e => rfl
  | ok q₀ =>
    cases k.conditions r s.current with
    | error e => rfl
    | ok q₁ => cases k.comparison r c <;> simp [connectorSql]

/-- Ending a group brings what was written before the group and the group itself together. -/
theorem sql_pop (before current : List Predicate) (connector : Option Connector)
    (outer : List (List Predicate × Option Connector)) :
    sql k r ⟨before ++ [.group connector current], outer⟩ = (do
      let q ← sql k r ⟨current, (before, connector) :: outer⟩
      return q ++ [.words ")"]) := by
  unfold sql
  simp only [outerSql, conditions_append, conditions, condition]
  cases outerSql k r outer with
  | error e => rfl
  | ok q₀ =>
    cases k.conditions r before with
    | error e => rfl
    | ok q₁ => cases k.conditions r current <;> simp

theorem sql_close {s s' : Pending} (h : s.close? = some s') :
    s'.sql k r = (do
      let q ← s.sql k r
      return q ++ [.words ")"]) := by
  obtain ⟨current, outer⟩ := s
  cases outer with
  | nil => cases h
  | cons e outer =>
    obtain ⟨before, connector⟩ := e
    cases h
    exact sql_pop before current connector outer

theorem sql_closeAll (s : Pending) :
    k.conditions r s.closeAll = (do
      let q ← s.sql k r
      return q ++ List.replicate s.outer.length (.words ")")) := by
  obtain ⟨current, outer⟩ := s
  induction outer generalizing current with
  | nil =>
    unfold sql closeAll
    cases h : k.conditions r current <;> simp [outerSql, h]
  | cons e outer ih =>
    obtain ⟨before, connector⟩ := e
    rw [show closeAll ⟨current, (before, connector) :: outer⟩
      = closeAll ⟨before ++ [.group connector current], outer⟩ from rfl, ih, sql_pop, bind_assoc]
    cases sql k r ⟨current, (before, connector) :: outer⟩ with
    | error e => rfl
    | ok q =>
      simp only [ok_bind, pure_eq_ok, List.length_cons, List.append_assoc]
      rw [List.replicate_succ]
      rfl

/-! ## Both sides, node by node -/

/-- The text of the groups in the making, with the number of open groups. -/
def flat (k : Compiler) (r : Request) (s : Pending) : Except Fault FlatCondition := do
  let q ← s.sql k r
  return ⟨q.toText, s.outer.length⟩

theorem depth_of_flat {s : Pending} {f : FlatCondition} (h : s.flat k r = .ok f) :
    f.depth = s.outer.length := by
  unfold flat at h
  obtain ⟨q, -, hf⟩ := bind_eq_ok_iff.1 h
  cases hf
  rfl

theorem flat_closeAt {position : Nat} {closes : Bool} {s s' : Pending}
    (h : s.closeAt position closes = .ok s') :
    s'.flat k r = (do
      let f ← s.flat k r
      f.closeAt position closes) := by
  unfold closeAt at h
  by_cases hc : closes = true
  · rw [if_pos hc] at h
    cases hs : s.close? with
    | none => rw [hs] at h; cases h
    | some s₁ =>
      rw [hs] at h
      cases h
      -- A group was open, so the counter on the other side is not zero either.
      have hd : s.outer.length = s'.outer.length + 1 := by
        obtain ⟨current, _ | ⟨⟨before, connector⟩, outer⟩⟩ := s
        · cases hs
        · cases hs
          rfl
      unfold flat
      rw [sql_close hs]
      cases s.sql k r with
      | error e => rfl
      | ok q => simp [FlatCondition.closeAt, hc, hd, Sql.toText, Piece.text]
  · rw [if_neg hc] at h
    cases h
    cases s.flat k r <;> simp [FlatCondition.closeAt, hc]

/-- The text of a node and the connector that is read from it are written alike. -/
theorem connect_eq (f : FlatCondition) (text : String) :
    f.connect text = (do
      let connector ← Connector.readOptional text
      return ⟨f.text ++ (connectorSql connector).toText, f.depth⟩) := by
  unfold FlatCondition.connect Connector.readOptional
  by_cases hblank : Text.trim text = ""
  · simp [hblank, connectorSql, Sql.toText]
  · simp only [if_neg hblank, Connector.read_eq]
    by_cases hand : Text.keyword text = "AND"
    · simp [hand, connectorSql, Connector.keyword, Sql.toText, Piece.text]
    by_cases hor : Text.keyword text = "OR"
    · simp [hor, connectorSql, Connector.keyword, Sql.toText, Piece.text]
    · simp [hand, hor]

/-- A comparison takes the same place on both sides. -/
theorem flat_place (s : Pending) (m : Marker) :
    (s.place m).flat k r = (do
      let f ← s.flat k r
      let q ← k.comparison r m.comparison
      let f := FlatCondition.openAt m.opens ⟨f.text ++ (connectorSql m.connector).toText, f.depth⟩
      return { f with text := f.text ++ q.toText }) := by
  obtain ⟨opens, closes, connector, c⟩ := m
  unfold flat
  cases opens with
  | true =>
    have hplace : s.place ⟨true, closes, connector, c⟩ = s.begin connector c := rfl
    rw [hplace, sql_begin]
    cases s.sql k r with
    | error e => rfl
    | ok q =>
      cases k.comparison r c with
      | error e => rfl
      | ok q' =>
        simp [FlatCondition.openAt, Sql.toText, Piece.text, begin, String.append_assoc]
  | false =>
    have hplace :
        s.place ⟨false, closes, connector, c⟩ = s.add (.comparison connector c) := rfl
    rw [hplace, sql_add]
    simp only [condition]
    cases s.sql k r with
    | error e => rfl
    | ok q =>
      cases k.comparison r c with
      | error e => rfl
      | ok q' => simp [FlatCondition.openAt, Sql.toText, add, String.append_assoc]

variable {aliases : Sorted String Nat} {position : Nat}

/-- One node moves both sides alike. -/
theorem flat_step {s s' : Pending} {node : Node} (h : s.step aliases position node = .ok s') :
    s'.flat k r = (do
      let f ← s.flat k r
      f.step k r aliases position node) := by
  obtain ⟨s₁, m, h₁, hm, rfl⟩ := step_eq_ok_iff.1 h
  obtain ⟨connector, c, h₂, h₃, rfl⟩ := Node.marker_eq_ok_iff.1 hm
  rw [flat_place, flat_closeAt h₁, bind_assoc]
  unfold FlatCondition.step
  simp only [connect_eq, h₂, h₃, ok_bind]
  rfl

/-- A closing bracket is refused on both sides or on neither. -/
theorem closeAt_cases {s : Pending} {f : FlatCondition} (hf : f.depth = s.outer.length)
    (closes : Bool) :
    (∃ e, s.closeAt position closes = .error e ∧ f.closeAt position closes = .error e) ∨
      ∃ s₁ f₁, s.closeAt position closes = .ok s₁ ∧ f.closeAt position closes = .ok f₁ := by
  obtain ⟨current, outer⟩ := s
  cases closes with
  | false => exact .inr ⟨_, _, rfl, rfl⟩
  | true =>
    cases outer with
    | nil =>
      have h0 : f.depth = 0 := hf
      refine .inl ⟨_, rfl, ?_⟩
      rw [FlatCondition.closeAt, if_pos rfl, if_pos h0]
    | cons e outer =>
      have h0 : f.depth ≠ 0 := by rw [hf]; exact Nat.succ_ne_zero _
      refine .inr ⟨_, ⟨f.text ++ ")", f.depth - 1⟩, rfl, ?_⟩
      rw [FlatCondition.closeAt, if_pos rfl, if_neg h0]

/-- A node that the tree refuses is refused by the text for the same fault. -/
theorem step_error {s : Pending} {node : Node} {e : Fault} {f : FlatCondition}
    (hf : f.depth = s.outer.length) (h : s.step aliases position node = .error e) :
    f.step k r aliases position node = .error e := by
  unfold step at h
  unfold FlatCondition.step
  rcases closeAt_cases hf node.closes with ⟨e', hs, ht⟩ | ⟨s₁, f₁, hs, ht⟩
  · rw [hs] at h
    rw [ht]
    cases h
    rfl
  · rw [hs, ok_bind] at h
    rw [ht, ok_bind, connect_eq]
    cases hc : Connector.readOptional node.connector with
    | error e' => rw [hc] at h; cases h; rfl
    | ok connector =>
      rw [hc, ok_bind] at h
      rw [ok_bind, pure_eq_ok, ok_bind]
      cases hv : node.comparison aliases with
      | error e' => rw [hv] at h; cases h; rfl
      | ok c =>
        -- A node of which all parts are read is never refused by the tree.
        rw [hv, ok_bind] at h
        cases ho : node.opens <;> rw [ho] at h <;> cases h

/-! ## All nodes -/

theorem flat_steps {nodes : List Node} {s s' : Pending}
    (h : s.steps aliases position nodes = .ok s') :
    s'.flat k r = (do
      let f ← s.flat k r
      f.steps k r aliases position nodes) := by
  induction nodes generalizing position s with
  | nil =>
    cases h
    cases s'.flat k r <;> rfl
  | cons node nodes ih =>
    unfold steps at h
    obtain ⟨s₁, h₁, h₂⟩ := bind_eq_ok_iff.1 h
    rw [ih h₂, flat_step h₁, bind_assoc]
    rfl

/-- A node list that the tree refuses has no text, though the fault may be an earlier one. -/
theorem steps_error {nodes : List Node} {s : Pending} {e : Fault}
    (h : s.steps aliases position nodes = .error e) :
    ∃ e', (do
      let f ← s.flat k r
      f.steps k r aliases position nodes) = .error e' := by
  cases hf : s.flat k r with
  | error e' => exact ⟨e', rfl⟩
  | ok f =>
    induction nodes generalizing position s f with
    | nil => cases h
    | cons node nodes ih =>
      unfold steps at h
      show ∃ e', (f.step k r aliases position node >>= fun f =>
        f.steps k r aliases (position + 1) nodes) = .error e'
      cases hs : s.step aliases position node with
      | error e' =>
        rw [step_error (depth_of_flat hf) hs]
        exact ⟨e', rfl⟩
      | ok s₁ =>
        rw [hs, ok_bind] at h
        have hf₁ := flat_step (k := k) (r := r) hs
        rw [hf, ok_bind] at hf₁
        rw [← hf₁]
        cases hf' : s₁.flat k r with
        | error e' => exact ⟨e', rfl⟩
        | ok f₁ => exact ih h f₁ hf'

/-- The tree of all groups ended at last, written out. -/
theorem toText_closeAll (s : Pending) :
    (do
      let q ← k.conditions r s.closeAll
      return q.toText) = (do
      let f ← s.flat k r
      return f.finish) := by
  have hreplicate (n : Nat) :
      Sql.toText (List.replicate n (.words ")")) = String.ofList (List.replicate n ')') := by
    induction n with
    | zero => rfl
    | succ n ih =>
      rw [List.replicate_succ, List.replicate_succ, ← List.singleton_append, Sql.toText_append, ih]
      simp [Sql.toText, Piece.text, String.ofList_cons]
  rw [sql_closeAll, flat, bind_assoc, bind_assoc]
  cases s.sql k r with
  | error e => rfl
  | ok q => simp [Sql.toText_append, hreplicate, FlatCondition.finish]

end Pending

/-- The tree of a node list and its one-pass writing succeed on the same lists and give the same
text, whatever the marks, the names, the request and the compiler are. -/
theorem Compiler.treeText_eq_ok_iff_write (k : Compiler) (r : Request)
    (aliases : Sorted String Nat) (nodes : List Node) (text : String) :
    k.treeText r aliases nodes = .ok text ↔
      FlatCondition.write k r aliases nodes = .ok text := by
  have hstart : Pending.start.flat k r = .ok FlatCondition.start := rfl
  unfold treeText Predicate.ofNodes FlatCondition.write
  cases hs : Pending.start.steps aliases 0 nodes with
  | error e =>
    obtain ⟨e', he⟩ := Pending.steps_error (k := k) (r := r) hs
    rw [hstart, ok_bind] at he
    rw [he]
    constructor <;> intro h <;> cases h
  | ok s =>
    have hflat := Pending.flat_steps (k := k) (r := r) hs
    rw [hstart, ok_bind] at hflat
    rw [← hflat, ← Pending.toText_closeAll]
    rfl

end QueryCompiler
