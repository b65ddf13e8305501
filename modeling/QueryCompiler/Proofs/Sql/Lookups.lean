import Mathlib.Tactic.FinCases
import QueryCompiler.Proofs.Sql.Joining

/-!
# What is looked up in a catalog

A statement needs little of a catalog: the tables behind the classes of root and links, and the
types of the fields that are compared with a literal. `Catalog.AgreeOn` says that two catalogs give
the same answers there, be they tables and types or faults.

1. `comparison_of_agreeOn` and `body_of_agreeOn`: such catalogs lead to the same comparisons, and so
   to the same body.
2. `coherent_append` and `body_append`: further classes at the end of a coherent request are neither
   checked nor looked up.

Main statement: `statements_of_agreeOn`.
-/

namespace QueryCompiler

open Predicate

/-- Two catalogs give the same answers wherever the statements for a request ask: for the tables of
root and links, and for the types of fields that are compared with a literal. -/
structure Catalog.AgreeOn (a b : Catalog) (r : Request) : Prop where
  table : ∀ i name, i = 0 ∨ r.links.contains i = true → r.classes[i]? = some name →
    b.tableName name = a.tableName name
  type : ∀ c s name, c ∈ r.allComparisons → c.operator.takesValue = true → c.value = .literal s →
    r.classes[c.table]? = some name → b.fieldType name c.field = a.fieldType name c.field

namespace Request

variable {r : Request}

/-- A request with further classes that nothing speaks of. -/
def appendClasses (r : Request) (more : List String) : Request :=
  { r with classes := r.classes ++ more }

theorem extends_append (more : List String) : (r.appendClasses more).Extends r where
  classes := List.prefix_append _ _
  link _ _ h := h
  aliased _ _ h := h

theorem coherent_append (hr : r.Coherent) (more : List String) :
    (r.appendClasses more).Coherent := by
  have hext : (r.appendClasses more).Extends r := extends_append more
  have hlength {i : Nat} (hi : i < r.classes.length) : i < (r.appendClasses more).classes.length :=
    Nat.lt_of_lt_of_le hi hext.classes.length_le
  exact {
    root := List.append_ne_nil_of_left_ne_nil hr.root more
    root_unlinked := hr.root_unlinked
    link := fun i l hl => by
      obtain ⟨hi, hlt, hleft⟩ := hr.link i l hl
      exact ⟨hlength hi, hlt, hext.attached hleft⟩
    link_filter := fun i l hl =>
      hext.names (hr.link_filter i l hl) fun _ ht => ⟨hext.attached ht.1, ht.2⟩
    filter := hext.names hr.filter fun _ ht => hext.attached ht
    field := fun table ht => hext.attached (hr.field table ht)
    order := fun term ht => hext.attached (hr.order term ht)
    aliased := fun aliasName table h => hlength (hr.aliased aliasName table h) }

end Request

namespace Compiler

/-- The same compiler over another catalog. -/
def withCatalog (k : Compiler) (b : Catalog) : Compiler := { k with catalog := b }

variable {k : Compiler} {r : Request} {b : Catalog}

@[simp] theorem catalog_withCatalog : (k.withCatalog b).catalog = b := rfl

/-! ## Two catalogs -/

theorem tableName_of_agreeOn (h : k.catalog.AgreeOn b r) {i : Nat}
    (hi : i = 0 ∨ r.links.contains i = true) :
    (k.withCatalog b).tableName r i = k.tableName r i := by
  unfold tableName
  cases hc : r.classOf i with
  | error fault => rfl
  | ok name => exact h.table i name hi (Request.classOf_eq_ok_iff.1 hc)

/-- Only a literal is written by the catalog, namely by the type of the field. -/
theorem operand_of_agreeOn (h : k.catalog.AgreeOn b r) {c : Comparison}
    (hc : c ∈ r.allComparisons) : (k.withCatalog b).operand r c = k.operand r c := by
  unfold operand
  by_cases ht : c.operator.takesValue = true
  · rw [if_pos ht, if_pos ht]
    cases hv : c.value with
    | literal s =>
      cases hn : r.classOf c.table with
      | error fault => rfl
      | ok name =>
        have htype := h.type c s name hc ht hv (Request.classOf_eq_ok_iff.1 hn)
        simp only [Outcome.ok_bind, catalog_withCatalog, htype]
    | none | column _ _ | list _ => rfl
  · rw [if_neg ht, if_neg ht]

theorem comparison_of_agreeOn (h : k.catalog.AgreeOn b r) {c : Comparison}
    (hc : c ∈ r.allComparisons) : (k.withCatalog b).comparison r c = k.comparison r c := by
  unfold comparison
  rw [operand_of_agreeOn h hc]
  -- A fragment goes by the value for an empty list, which is that of `k`.
  rfl

theorem body_of_agreeOn (h : k.catalog.AgreeOn b r) :
    (k.withCatalog b).body r = k.body r :=
  body_of_same rfl rfl (fun _ => tableName_of_agreeOn h) fun _ => comparison_of_agreeOn h

/-! ## Further classes -/

theorem body_append (hr : r.Coherent) (more : List String) :
    k.body (r.appendClasses more) = k.body r := by
  have hext : (r.appendClasses more).Extends r := Request.extends_append more
  have hlines : k.joinLines (r.appendClasses more) r.links.entries =
      k.joinLines r r.links.entries :=
    joinLines_congr <| List.forall₂_same.2 fun e he =>
      joinLine_of_extends hext hr (Sorted.get?_eq_some_iff.2 he)
  have hfilter : k.conditions (r.appendClasses more) r.conditions = k.conditions r r.conditions :=
    conditions_of_extends hext hr.filter fun _ ht => ht.1
  unfold body source filterLine
  rw [tableName_of_extends hext (List.length_pos_iff.2 hr.root)]
  unfold Request.appendClasses at hlines hfilter ⊢
  rw [hlines, hfilter]

/-- Catalogs that agree where a request asks lead to the same statements, or to the same faults.
Further classes at the end of a valid request leave it valid, and its statements as they are,
whatever either catalog says of them. -/
theorem statements_of_agreeOn (k : Compiler) (b : Catalog) (r : Request)
    (h : k.catalog.AgreeOn b r) :
    ((k.withCatalog b).select r = k.select r ∧
      (k.withCatalog b).count r = k.count r) ∧
    (r.validate = .ok () → ∀ more,
      (r.appendClasses more).validate = .ok () ∧
      (k.withCatalog b).select (r.appendClasses more) = k.select r ∧
      (k.withCatalog b).count (r.appendClasses more) = k.count r) := by
  have hbody : (k.withCatalog b).body r = k.body r := body_of_agreeOn h
  refine ⟨statements_congr rfl rfl hbody, fun hv more => ?_⟩
  have hr : r.Coherent := (Request.validate_eq_ok_iff_coherent r).1 hv
  have hv' : (r.appendClasses more).validate = .ok () :=
    (Request.validate_eq_ok_iff_coherent _).2 (Request.coherent_append hr more)
  refine ⟨hv', statements_congr rfl (hv'.trans hv.symm) ?_⟩
  rw [body_append hr, hbody]

/-- The catalog of the shop with a type for a field that the sample compares with a column only. -/
def typedShop : Catalog := (shop.catalog.field "Order" "total" .float).entity "Audit" "audits"

/-- The sample asks neither for that type nor for the new class. -/
theorem statements_of_agreeOn_sample :
    shop.catalog.AgreeOn typedShop .sample ∧ Request.sample.validate = .ok () ∧
      shop.catalog ≠ typedShop ∧
      (shop.withCatalog typedShop).select (Request.sample.appendClasses ["Audit", "Nothing"])
        = shop.select .sample := by
  have hagree : shop.catalog.AgreeOn typedShop .sample := {
    table := fun i name hi hname => by
      have hi : i ∈ [0, 1, 2] := by
        rcases hi with rfl | hi
        · exact List.mem_cons_self
        · exact List.mem_cons_of_mem _ (Sorted.mem_keys_iff.2 hi)
      fin_cases hi <;> cases hname <;> rfl
    type := fun c s name hc _ hv hname => by
      have hc : c ∈ [_, _, _, _, _] := hc
      fin_cases hc <;> cases hv <;> cases hname <;> rfl }
  obtain ⟨-, hmore⟩ := statements_of_agreeOn shop typedShop .sample hagree
  exact ⟨hagree, rfl, by decide, (hmore rfl ["Audit", "Nothing"]).2.1⟩

end Compiler

end QueryCompiler
