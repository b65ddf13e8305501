import QueryCompiler.Draft.Node

/-!
# Grouping

The marks of a node list become a tree of groups. A node that closes ends the innermost group
before anything else; a node that opens starts a group that takes over its connector. Main
statements: `steps_append` (a list is taken in part by part) and `finish_strict` (the strict policy
refuses open groups and changes nothing else).
-/

namespace QueryCompiler

/-- What becomes of groups that are still open at the end of a list. -/
inductive Policy
  | autoClose
  | strict
deriving DecidableEq, Repr

/-- Groups in the making: the innermost sequence, and for each group around it what stands before
the group and its connector, innermost first. -/
structure Pending where
  current : List Predicate
  outer : List (List Predicate × Option Connector)

namespace Pending

def start : Pending := ⟨[], []⟩

/-- Ends the innermost group; none if no group is open. -/
def close? : Pending → Option Pending
  | ⟨current, (before, connector) :: outer⟩ =>
    some ⟨before ++ [.group connector current], outer⟩
  | ⟨_, []⟩ => none

def add (s : Pending) (p : Predicate) : Pending := { s with current := s.current ++ [p] }

/-- Starts a group with its first comparison. -/
def begin (s : Pending) (connector : Option Connector) (c : Comparison) : Pending :=
  ⟨[.comparison none c], (s.current, connector) :: s.outer⟩

/-- Ends all groups. -/
def closeAll (s : Pending) : List Predicate :=
  s.outer.foldl (fun current e => e.1 ++ [.group e.2 current]) s.current

/-- Ends a group where a node says so. -/
def closeAt (position : Nat) (closes : Bool) (s : Pending) : Except Fault Pending :=
  if closes then
    match s.close? with
    | some s => .ok s
    | none => .error (.unbalanced position .neverOpened)
  else .ok s

/-- Takes in one node. -/
def step (aliases : Sorted String Nat) (position : Nat) (s : Pending) (node : Node) :
    Except Fault Pending := do
  let s ← s.closeAt position node.closes
  let connector ← Connector.readOptional node.connector
  let c ← node.comparison aliases
  if node.opens then return s.begin connector c
  else return s.add (.comparison connector c)

/-- Takes in the nodes from a position on. -/
def steps (aliases : Sorted String Nat) (position : Nat) (s : Pending) :
    List Node → Except Fault Pending
  | [] => .ok s
  | node :: nodes => do steps aliases (position + 1) (← s.step aliases position node) nodes

theorem steps_append (aliases : Sorted String Nat) (position : Nat) (s : Pending)
    (nodes nodes' : List Node) :
    s.steps aliases position (nodes ++ nodes')
      = (do (← s.steps aliases position nodes).steps aliases (position + nodes.length) nodes') := by
  induction nodes generalizing position s with
  | nil => rfl
  | cons node nodes ih =>
    simp only [List.cons_append, steps, bind, Except.bind]
    cases s.step aliases position node with
    | error e => rfl
    | ok s' =>
      have := ih (position + 1) s'
      simp only [bind, Except.bind] at this
      rw [List.length_cons, show position + (nodes.length + 1) = position + 1 + nodes.length by omega]
      exact this

/-- The sequence, if the policy lets it end here. -/
def finish (policy : Policy) (position : Nat) (s : Pending) : Except Fault (List Predicate) :=
  match policy with
  | .autoClose => .ok s.closeAll
  | .strict =>
    if s.outer.isEmpty then .ok s.closeAll
    else .error (.unbalanced position (.leftOpen s.outer.length))

theorem finish_strict {position : Nat} {s : Pending} {ps : List Predicate} :
    s.finish .strict position = .ok ps ↔ s.outer = [] ∧ s.finish .autoClose position = .ok ps := by
  simp only [finish]
  split <;> simp_all

end Pending

/-- The tree of a node list. -/
def Predicate.ofNodes (policy : Policy) (aliases : Sorted String Nat) (nodes : List Node) :
    Except Fault (List Predicate) := do
  let s ← Pending.start.steps aliases 0 nodes
  s.finish policy nodes.length

end QueryCompiler
