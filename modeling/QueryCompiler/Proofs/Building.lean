import Mathlib.Data.List.Induction
import QueryCompiler.Request.Basic

/-!
# Requests built by calls

A request is built from a root by calls in any order: joins, selections, filters, sort keys, ranges
and the choice between all rows and different ones. `kinds` takes a run of calls apart into the
calls of each kind, and `BuiltFrom` says what the request holds by these alone.

1. `BuiltFrom.apply`: one call adds to the calls of its kind and leaves what the others say.
2. `builtFrom_run`: so it is after a whole run, by induction from its end.
3. `BuiltFrom.unique`: the calls of each kind leave no choice, so runs that differ in how calls of
   different kinds take turns build the same request.

Main statement: `run_new`.
-/

namespace QueryCompiler.Request

/-- What a join adds: a class with an alias, and the link that leads to it. -/
structure Join where
  name : String
  aliasName : String
  link : Link

/-- A call on a request that is being built. -/
inductive Call
  | join (j : Join)
  | select (table : Nat) (names : List String)
  | filter (p : Predicate)
  | sort (term : OrderTerm)
  | limit (offset lines : UInt64)
  | distinctRows (on : Bool)

namespace Call

/-- The request after a call. -/
def apply (r : Request) : Call → Request
  | join j => r.join j.name j.aliasName j.link
  | select table names => r.select table names
  | filter p => r.filter p
  | sort term => r.sort term
  | limit offset lines => r.limit offset lines
  | distinctRows on => r.distinctRows on

/-- What a call gives back: a join the index of its table, any other nothing. -/
def result? (r : Request) : Call → Option Nat
  | join _ => some r.nextTable
  | _ => none

end Call

/-- The request after some calls. -/
def run (r : Request) (calls : List Call) : Request := calls.foldl Call.apply r

/-- What some calls give back. -/
def results (r : Request) : List Call → List Nat
  | [] => []
  | c :: calls => (c.result? r).toList ++ results (c.apply r) calls

theorem run_concat (r : Request) (calls : List Call) (c : Call) :
    r.run (calls ++ [c]) = c.apply (r.run calls) := by
  rw [run, List.foldl_append]
  rfl

theorem results_concat (r : Request) (calls : List Call) (c : Call) :
    r.results (calls ++ [c]) = r.results calls ++ (c.result? (r.run calls)).toList := by
  induction calls generalizing r with
  | nil => exact List.append_nil _
  | cons c' calls ih =>
    rw [List.cons_append, results, ih, results, List.append_assoc]
    rfl

/-! ## Calls by their kind -/

/-- Calls by their kind, each kind in order. -/
structure Kinds where
  joins : List Join
  selects : List (Nat × List String)
  filters : List Predicate
  terms : List OrderTerm
  ranges : List (UInt64 × UInt64)
  choices : List Bool

namespace Kinds

/-- The calls with one more at the end of its kind. -/
def add (k : Kinds) : Call → Kinds
  | .join j => { k with joins := k.joins ++ [j] }
  | .select table names => { k with selects := k.selects ++ [(table, names)] }
  | .filter p => { k with filters := k.filters ++ [p] }
  | .sort term => { k with terms := k.terms ++ [term] }
  | .limit offset lines => { k with ranges := k.ranges ++ [(offset, lines)] }
  | .distinctRows on => { k with choices := k.choices ++ [on] }

/-- The names that were selected of a table, call by call. -/
def selectsOf (k : Kinds) (table : Nat) : List (List String) :=
  (k.selects.filter fun s => s.1 = table).map (·.2)

/-- The aliases with the tables that they are registered for: the one of the root, then those of
the joins, whose tables are counted from 1. -/
def registrations (rootAlias : String) (k : Kinds) : List (String × Nat) :=
  (rootAlias :: k.joins.map (·.aliasName)).zipIdx

end Kinds

/-- The calls of each kind in a run. -/
def kinds (calls : List Call) : Kinds where
  joins := calls.filterMap fun | .join j => some j | _ => none
  selects := calls.filterMap fun | .select table names => some (table, names) | _ => none
  filters := calls.filterMap fun | .filter p => some p | _ => none
  terms := calls.filterMap fun | .sort term => some term | _ => none
  ranges := calls.filterMap fun | .limit offset lines => some (offset, lines) | _ => none
  choices := calls.filterMap fun | .distinctRows on => some on | _ => none

theorem kinds_concat (calls : List Call) (c : Call) :
    kinds (calls ++ [c]) = (kinds calls).add c := by
  cases c <;> simp [kinds, Kinds.add]

/-- What a request holds that was built from a root by calls of each kind. -/
structure BuiltFrom (name rootAlias : String) (k : Kinds) (r : Request) : Prop where
  classes : r.classes = name :: k.joins.map (·.name)
  root_unlinked : r.links.get? 0 = none
  /-- The joins are counted from 1, and each has its link at its number. -/
  links : ∀ i, r.links.get? (i + 1) = k.joins[i]?.map (·.link)
  /-- Tables come in the order in which fields of them were first selected. -/
  tables : r.fields.keys = (k.selects.map (·.1)).eraseDups
  /-- A table has all names that were selected of it, one call after the other. -/
  fields : ∀ table ∈ k.selects.map (·.1), r.fields.get? table = some (k.selectsOf table).flatten
  conditions : r.conditions = k.filters
  order : r.order = k.terms
  range : (r.offset, r.lines) = k.ranges.getLast?.getD (0, 0)
  distinct : r.distinct = k.choices.getLast?.getD false
  /-- An alias names the table for which it was registered last. -/
  aliases : ∀ aliasName, r.aliases.get? aliasName =
    ((k.registrations rootAlias).filter (·.1 = aliasName)).getLast?.map (·.2)

variable {name rootAlias : String} {k : Kinds} {r r' : Request}

theorem builtFrom_new (name rootAlias : String) :
    BuiltFrom name rootAlias (kinds []) (new name rootAlias) where
  classes := rfl
  root_unlinked := rfl
  links _ := rfl
  tables := rfl
  fields _ h := absurd h List.not_mem_nil
  conditions := rfl
  order := rfl
  range := rfl
  distinct := rfl
  aliases aliasName := by
    show Sorted.get? (Sorted.insert _ _ _) _ = _
    rw [Sorted.get?_insert]
    by_cases h : aliasName = rootAlias
    · simp [h, Kinds.registrations, kinds]
    · have h' : ¬ rootAlias = aliasName := fun h' => h h'.symm
      simp [h, h', Kinds.registrations, kinds]

namespace BuiltFrom

/-- The names of a table so far, none if nothing was selected of it. -/
theorem getD_get? (h : BuiltFrom name rootAlias k r) (table : Nat) :
    (r.fields.get? table).getD [] = (k.selectsOf table).flatten := by
  by_cases ht : table ∈ k.selects.map (·.1)
  · rw [h.fields table ht]
    rfl
  · have hnone : r.fields.get? table = none := by
      rw [Ordered.get?_eq_none_iff, h.tables, List.mem_eraseDups]
      exact ht
    have hselects : k.selectsOf table = [] := by
      rw [Kinds.selectsOf, List.map_eq_nil_iff, List.filter_eq_nil_iff]
      intro s hs heq
      exact ht (List.mem_map.2 ⟨s, hs, of_decide_eq_true heq⟩)
    rw [hnone, hselects]
    rfl

theorem nextTable (h : BuiltFrom name rootAlias k r) : r.nextTable = k.joins.length + 1 := by
  simp [Request.nextTable, h.classes]

theorem join (h : BuiltFrom name rootAlias k r) (j : Join) :
    BuiltFrom name rootAlias (k.add (.join j)) (r.join j.name j.aliasName j.link) := by
  have hnext : r.classes.length = k.joins.length + 1 := h.nextTable
  refine { h with classes := ?_, root_unlinked := ?_, links := ?_, aliases := ?_ }
  · show r.classes ++ [j.name] = name :: (k.joins ++ [j]).map (·.name)
    simp [h.classes]
  · show (r.links.insert r.classes.length j.link).get? 0 = none
    rw [Sorted.get?_insert, if_neg (by omega), h.root_unlinked]
  · intro i
    show (r.links.insert r.classes.length j.link).get? (i + 1) = (k.joins ++ [j])[i]?.map (·.link)
    rw [Sorted.get?_insert, h.links, hnext]
    by_cases hi : i = k.joins.length
    · simp [hi]
    · rw [if_neg (by omega), List.getElem?_append]
      by_cases hlt : i < k.joins.length
      · rw [if_pos hlt]
      · rw [if_neg hlt, List.getElem?_eq_none (by omega), List.getElem?_eq_none (by simp; omega)]
  · intro aliasName
    show (r.aliases.insert j.aliasName r.classes.length).get? aliasName = _
    have hreg : (k.add (.join j)).registrations rootAlias =
        k.registrations rootAlias ++ [(j.aliasName, k.joins.length + 1)] := by
      show (rootAlias :: (k.joins ++ [j]).map (·.aliasName)).zipIdx = _
      rw [List.map_append, ← List.cons_append, List.zipIdx_append]
      simp [Kinds.registrations]
    rw [Sorted.get?_insert, h.aliases, hnext, hreg, List.filter_append]
    by_cases ha : aliasName = j.aliasName
    · simp [ha]
    · have ha' : ¬ j.aliasName = aliasName := fun h => ha h.symm
      simp [ha, ha']

theorem select (h : BuiltFrom name rootAlias k r) (table : Nat) (names : List String) :
    BuiltFrom name rootAlias (k.add (.select table names)) (r.select table names) := by
  have hmem (table : Nat) : table ∈ r.fields.keys ↔ table ∈ k.selects.map (·.1) := by
    rw [h.tables, List.mem_eraseDups]
  have htables : (k.selects ++ [(table, names)]).map (·.1) = k.selects.map (·.1) ++ [table] := by
    rw [List.map_append]
    rfl
  refine { h with tables := ?_, fields := ?_ }
  · show (r.fields.update table _).keys = ((k.selects ++ [(table, names)]).map (·.1)).eraseDups
    rw [htables, List.eraseDups_append, ← h.tables, Ordered.keys_update]
    by_cases ht : table ∈ k.selects.map (·.1)
    · rw [if_pos ((hmem table).2 ht)]
      simp [List.removeAll, ht]
    · rw [if_neg fun h => ht ((hmem table).1 h)]
      simp [List.removeAll, ht, List.eraseDups_cons]
  · intro table' htable'
    have hselects : (k.add (.select table names)).selectsOf table' =
        k.selectsOf table' ++ if table = table' then [names] else [] := by
      show List.map _ (List.filter _ (k.selects ++ [(table, names)])) = _
      by_cases heq : table = table' <;> simp [Kinds.selectsOf, heq]
    rw [get?_select, hselects, List.flatten_append]
    by_cases heq : table' = table
    · subst heq
      rw [if_pos rfl, if_pos rfl, h.getD_get?]
      simp
    · rw [if_neg heq, if_neg fun h => heq h.symm]
      have hold : table' ∈ k.selects.map (·.1) := by
        have hnew : table' ∈ (k.selects ++ [(table, names)]).map (·.1) := htable'
        rw [htables, List.mem_append, List.mem_singleton] at hnew
        exact hnew.resolve_right heq
      rw [h.fields table' hold]
      simp

/-- Each call adds to its own kind. -/
theorem apply (h : BuiltFrom name rootAlias k r) (c : Call) :
    BuiltFrom name rootAlias (k.add c) (c.apply r) := by
  cases c with
  | join j => exact h.join j
  | select table names => exact h.select table names
  | filter p => exact { h with conditions := congrArg (· ++ [p]) h.conditions }
  | sort term => exact { h with order := congrArg (· ++ [term]) h.order }
  | limit offset lines => exact { h with range := by simp [Call.apply, limit, Kinds.add] }
  | distinctRows on => exact { h with distinct := by simp [Call.apply, distinctRows, Kinds.add] }

/-- The calls of each kind leave no choice. -/
theorem unique (h : BuiltFrom name rootAlias k r) (h' : BuiltFrom name rootAlias k r') :
    r = r' := by
  have hfields : r.fields = r'.fields := by
    refine Ordered.ext_get? (h.tables.trans h'.tables.symm) fun table ht => ?_
    rw [h.tables, List.mem_eraseDups] at ht
    rw [h.fields table ht, h'.fields table ht]
  have hlinks : r.links = r'.links := by
    refine Sorted.ext_get? fun i => ?_
    cases i with
    | zero => rw [h.root_unlinked, h'.root_unlinked]
    | succ i => rw [h.links, h'.links]
  have haliases : r.aliases = r'.aliases :=
    Sorted.ext_get? fun aliasName => by rw [h.aliases, h'.aliases]
  have hrange : (r.offset, r.lines) = (r'.offset, r'.lines) := h.range.trans h'.range.symm
  have hclasses : r.classes = r'.classes := h.classes.trans h'.classes.symm
  have hconditions : r.conditions = r'.conditions := h.conditions.trans h'.conditions.symm
  have horder : r.order = r'.order := h.order.trans h'.order.symm
  have hdistinct : r.distinct = r'.distinct := h.distinct.trans h'.distinct.symm
  rw [Prod.mk.injEq] at hrange
  obtain ⟨hoffset, hlines⟩ := hrange
  cases r
  cases r'
  simp_all

end BuiltFrom

/-! ## Whole runs -/

theorem builtFrom_run (name rootAlias : String) (calls : List Call) :
    BuiltFrom name rootAlias (kinds calls) ((new name rootAlias).run calls) := by
  induction calls using List.reverseRecOn with
  | nil => exact builtFrom_new name rootAlias
  | append_singleton calls c ih =>
    rw [kinds_concat, run_concat]
    exact ih.apply c

/-- The joins give back 1, 2 and so on, whatever is called between them. -/
theorem results_new (name rootAlias : String) (calls : List Call) :
    (new name rootAlias).results calls = List.range' 1 (kinds calls).joins.length := by
  induction calls using List.reverseRecOn with
  | nil => rfl
  | append_singleton calls c ih =>
    have hnext := (builtFrom_run name rootAlias calls).nextTable
    rw [results_concat, ih, kinds_concat]
    cases c with
    | join j =>
      show _ ++ [_] = List.range' 1 ((kinds calls).joins ++ [j]).length
      rw [hnext, List.length_append, List.length_singleton, List.range'_concat]
      simp [Nat.add_comm]
    | select | filter | sort | limit | distinctRows => exact List.append_nil _

/-- What a run of calls builds from a root is said by the calls of each kind, and the joins give
back the indices under which their links are found. Runs with the same calls of each kind build the
same request. -/
theorem run_new (name rootAlias : String) (calls : List Call) :
    BuiltFrom name rootAlias (kinds calls) ((new name rootAlias).run calls) ∧
      (new name rootAlias).results calls = List.range' 1 (kinds calls).joins.length ∧
      ∀ calls', kinds calls' = kinds calls →
        (new name rootAlias).run calls' = (new name rootAlias).run calls := by
  refine ⟨builtFrom_run name rootAlias calls, results_new name rootAlias calls, ?_⟩
  intro calls' hkinds
  have h := builtFrom_run name rootAlias calls'
  rw [hkinds] at h
  exact h.unique (builtFrom_run name rootAlias calls)

/-- Fields of two tables, joins that take an alias over, and ranges, in two interleavings. -/
theorem run_new_interleaved :
    let order : Join := ⟨"Order", "o", ⟨.left, 0, "id", "user_id", []⟩⟩
    let item : Join := ⟨"Item", "o", ⟨.inner, 1, "id", "order_id", []⟩⟩
    let calls := [.select 1 ["total"], .join order, .limit 5 10, .select 0 ["id"], .join item,
      .select 1 ["id", "total"], .limit 0 3, .distinctRows true]
    let calls' := [.join order, .join item, .distinctRows true, .limit 5 10, .limit 0 3,
      .select 1 ["total"], .select 0 ["id"], .select 1 ["id", "total"]]
    kinds calls' = kinds calls ∧ (new "User" "u").run calls' = (new "User" "u").run calls ∧
      ((new "User" "u").run calls).fields.entries = [(1, ["total", "id", "total"]), (0, ["id"])] ∧
      ((new "User" "u").run calls).aliases.get? "o" = some 2 :=
  ⟨rfl, (run_new "User" "u" _).2.2 _ rfl, rfl, rfl⟩

end QueryCompiler.Request
