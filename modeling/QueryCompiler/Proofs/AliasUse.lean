import QueryCompiler.Proofs.Building
import QueryCompiler.Proofs.Checking
import QueryCompiler.Proofs.Coherence

/-!
# Where an alias can be used

The checks ask of an alias that its table has a class, and of a column on the right that its table is
attached. So an alias of a valid request can be used in its filter if and only if its table is
attached, and an alias without use passes as long as nobody uses it. Requests that are built by calls
have no such alias.

1. `check_column`: what the checks say of a comparison with a column, if it is all that is checked.
2. `attached_of_builtFrom`: a call that registers an alias attaches its table.

Main statements: `alias_usable_iff_attached` and `exists_alias_unusable`.
-/

namespace QueryCompiler.Request

open Outcome

variable {r : Request}

/-- Once its own table is attached, a comparison with a column passes if the table of the column is
attached too. -/
theorem check_column {aliasName column field : String} {named table : Nat} {op : Operator}
    (halias : r.aliases.get? aliasName = some named) (hclass : named < r.classes.length)
    (htable : r.Attached table) (connector : Option Connector) :
    r.checkPredicates .condition none
        [.comparison connector ⟨table, field, op, .column aliasName column⟩]
      = if r.isAttached named then .ok ()
        else .error (.unknownTable named (.usedWithoutLink .columnReference)) := by
  have htable : r.checkReference .condition none table = .ok () :=
    checkReference_eq_ok_iff_usable.2 (usable_none_iff.1 htable)
  have hnamed : r.checkReference .columnReference none named
      = if r.isAttached named then .ok ()
        else .error (.unknownTable named (.usedWithoutLink .columnReference)) := by
    unfold checkReference checkAttached
    rw [if_neg (Nat.not_le.2 hclass)]
    split <;> rfl
  simp only [checkPredicates, checkPredicate, checkComparison, htable, ok_bind,
    tableOf_eq_ok_iff.2 halias, hnamed]
  split <;> rfl

/-- In a request that is built by calls each alias names the root or the table of a join. -/
theorem attached_of_builtFrom {name rootAlias aliasName : String} {k : Kinds} {named : Nat}
    (h : BuiltFrom name rootAlias k r) (halias : r.aliases.get? aliasName = some named) :
    r.Attached named := by
  have hlength : r.classes.length = k.joins.length + 1 := h.nextTable
  rw [h.aliases, Option.map_eq_some_iff] at halias
  obtain ⟨e, he, rfl⟩ := halias
  have hmem : e ∈ (rootAlias :: k.joins.map (·.aliasName)).zipIdx :=
    (List.mem_filter.1 (List.mem_of_getLast? he)).1
  have hlt : e.2 < k.joins.length + 1 := by
    have := List.snd_lt_of_mem_zipIdx hmem
    simpa using this
  refine ⟨by omega, ?_⟩
  cases htable : e.2 with
  | zero => exact .inl rfl
  | succ i =>
    rw [htable] at hlt
    have hi : i < k.joins.length := Nat.lt_of_succ_lt_succ hlt
    refine .inr ⟨k.joins[i].link, ?_⟩
    rw [h.links, List.getElem?_eq_getElem hi, Option.map_some]

/-- An alias of a valid request can stand in a further comparison exactly if its table is attached;
if it is not, the checks report the table as used without a link. Every alias of a request that is
built by calls can be used. -/
theorem alias_usable_iff_attached (r : Request) :
    (r.validate = .ok () →
      ∀ aliasName named, r.aliases.get? aliasName = some named →
        ∀ table, r.Attached table → ∀ connector field op column,
          let r' := r.filter (.comparison connector ⟨table, field, op, .column aliasName column⟩)
          (r'.validate = .ok () ↔ r.Attached named) ∧
            (¬ r.Attached named → r'.validate
              = .error (.unknownTable named (.usedWithoutLink .columnReference)))) ∧
      ((∃ name rootAlias calls, r = (new name rootAlias).run calls) →
        ∀ aliasName named, r.aliases.get? aliasName = some named → r.Attached named) := by
  constructor
  · intro hv aliasName named halias table htable connector field op column r'
    have hclass : named < r.classes.length :=
      (valid_of_validate hv).aliased _ (Sorted.get?_eq_some_iff.1 halias)
    have hr' : r'.validate = if r.isAttached named then .ok ()
        else .error (.unknownTable named (.usedWithoutLink .columnReference)) :=
      (validate_filter hv _).trans (check_column halias hclass htable connector)
    rw [hr', ← isAttached_iff_attached]
    cases r.isAttached named <;> simp
  · rintro ⟨name, rootAlias, calls, rfl⟩ aliasName named halias
    exact attached_of_builtFrom (builtFrom_run name rootAlias calls) halias

/-- A valid request with an alias for a class that no link joins. -/
def unjoined : Request := ((new "User" "user").addClass "Order").setAlias "order" 1

/-- Of both aliases one can be used and one cannot, and with a link to the class both can. -/
theorem alias_usable_iff_attached_unjoined :
    let user : Predicate := .comparison none ⟨0, "id", .equal, .column "user" "boss_id"⟩
    let order : Predicate := .comparison none ⟨0, "id", .equal, .column "order" "user_id"⟩
    let joined := (new "User" "user").run [.join ⟨"Order", "order", ⟨.left, 0, "id", "user_id", []⟩⟩]
    unjoined.validate = .ok () ∧ (unjoined.filter user).validate = .ok () ∧
      (unjoined.filter order).validate
        = .error (.unknownTable 1 (.usedWithoutLink .columnReference)) ∧
      joined.Attached 1 ∧ (joined.filter order).validate = .ok () := by
  intro user order joined
  have hroot : unjoined.Attached 0 := ⟨by decide, .inl rfl⟩
  have hloose : ¬ unjoined.Attached 1 := fun h => absurd (isAttached_iff_attached.2 h) (by decide)
  have hunjoined := (alias_usable_iff_attached unjoined).1 rfl
  obtain ⟨husable, hbuilt⟩ := alias_usable_iff_attached joined
  have hjoined : joined.Attached 1 := hbuilt ⟨"User", "user", _, rfl⟩ "order" 1 rfl
  exact ⟨rfl, (hunjoined "user" 0 rfl 0 hroot none "id" .equal "boss_id").1.2 hroot,
    (hunjoined "order" 1 rfl 0 hroot none "id" .equal "user_id").2 hloose, hjoined,
    (husable rfl "order" 1 rfl 0 ⟨by decide, .inl rfl⟩ none "id" .equal "user_id").1.2 hjoined⟩

/-- Not every alias of a valid request can be used. -/
theorem exists_alias_unusable :
    ∃ (r : Request) (aliasName : String) (named : Nat), r.validate = .ok () ∧
      r.aliases.get? aliasName = some named ∧ r.Attached 0 ∧ ∀ connector field op column,
        (r.filter (.comparison connector ⟨0, field, op, .column aliasName column⟩)).validate
          ≠ .ok () := by
  refine ⟨unjoined, "order", 1, rfl, rfl, ⟨by decide, .inl rfl⟩, fun _ _ _ _ h => ?_⟩
  cases h

end QueryCompiler.Request
