import Mathlib.Data.Set.Function
import QueryCompiler.Proofs.Sql.Dependence
import QueryCompiler.Proofs.ValidRequest

/-!
# Other names for tables

An alias stands for a table. It is looked up by the checks and again by the compiler, so a request
whose aliases are renamed, in its list of aliases and wherever a column on the right is named by
one, asks for the same. All that a renaming has to do is to keep apart the aliases that occur.

1. `get?_rename`: a renamed alias is found where the old one was.
2. `sound_rename_iff` and `valid_rename_iff`: the checks see the same tables.
3. `comparison_rename`: an alias that names a table is written as that table.

Main statement: `statements_rename`.
-/

namespace QueryCompiler

open Predicate

namespace Sorted

variable {κ : Type} {α : Type u} [Ord κ] [Std.TransOrd κ] [Std.LawfulEqOrd κ]

/-- Every key through a function; of the values that come to one key the last counts. -/
def mapKeys (g : κ → κ) (s : Sorted κ α) : Sorted κ α :=
  ofList (s.entries.map fun e => (g e.1, e.2))

variable [DecidableEq κ]

omit [Ord κ] [Std.TransOrd κ] [Std.LawfulEqOrd κ] in
theorem lookup_map_key {g : κ → κ} {k : κ} {es : List (κ × α)}
    (h : ∀ e ∈ es, g e.1 = g k → e.1 = k) :
    (es.map fun e => (g e.1, e.2)).lookup (g k) = es.lookup k := by
  induction es with
  | nil => rfl
  | cons e es ih =>
    obtain ⟨he, hes⟩ := List.forall_mem_cons.1 h
    have hkey : (g k == g e.1) = (k == e.1) := by
      rw [Bool.eq_iff_iff, beq_iff_eq, beq_iff_eq]
      exact ⟨fun hg => (he hg.symm).symm, fun hk => hk ▸ rfl⟩
    rw [List.map_cons, List.lookup_cons, List.lookup_cons, hkey, ih hes]

/-- What is found at a key is found at its image, if these keys are kept apart. -/
theorem get?_mapKeys {g : κ → κ} {s : Sorted κ α} {keys : Set κ} (hg : Set.InjOn g keys)
    (hs : ∀ k ∈ s.keys, k ∈ keys) {k : κ} (hk : k ∈ keys) :
    (s.mapKeys g).get? (g k) = s.get? k := by
  have hmem {e : κ × α} (he : e ∈ s.entries) : e.1 ∈ keys := hs _ (List.mem_map_of_mem he)
  have hdistinct : s.entries.Pairwise fun e e' => e.1 ≠ e'.1 :=
    s.ascending.imp fun hlt heq => by simp [heq] at hlt
  have hnodup : ((s.entries.map fun e => (g e.1, e.2)).map Prod.fst).Nodup := by
    rw [List.map_map]
    refine List.pairwise_map.2 (hdistinct.imp_of_mem fun he he' hne heq => ?_)
    exact hne (hg (hmem he) (hmem he') heq)
  unfold mapKeys
  rw [get?_ofList hnodup, lookup_map_key fun e he heq => hg (hmem he) hk heq]
  rfl

end Sorted

/-! ## Renaming -/

/-- The alias of a column on the right, if that is what a value is. -/
def Value.aliasName? : Value → Option String
  | .column aliasName _ => some aliasName
  | _ => Option.none

def Value.rename (ρ : String → String) : Value → Value
  | .column aliasName field => .column (ρ aliasName) field
  | v => v

def Comparison.rename (ρ : String → String) (c : Comparison) : Comparison :=
  { c with value := c.value.rename ρ }

namespace Request

/-- The aliases of a request: those it lists and those that its comparisons name. -/
def aliasNames (r : Request) : Set String :=
  {a | a ∈ r.aliases.keys ∨ ∃ c ∈ r.allComparisons, c.value.aliasName? = some a}

/-- A request with other aliases, in its list and in its comparisons. -/
def rename (ρ : String → String) (r : Request) : Request :=
  { r.mapComparisons (Comparison.rename ρ) with aliases := r.aliases.mapKeys ρ }

variable {r : Request} {ρ : String → String} {c : Comparison} {bound : Option Nat} {table : Nat}

theorem get?_rename (hρ : Set.InjOn ρ r.aliasNames) {aliasName : String}
    (ha : aliasName ∈ r.aliasNames) :
    (r.rename ρ).aliases.get? (ρ aliasName) = r.aliases.get? aliasName :=
  Sorted.get?_mapKeys hρ (fun _ hk => .inl hk) ha

/-- The tables behind the renamed aliases are those behind the old ones. -/
theorem aliased_rename_iff (hρ : Set.InjOn ρ r.aliasNames) {P : Nat → Prop} :
    (∀ e ∈ (r.rename ρ).aliases.entries, P e.2) ↔ ∀ e ∈ r.aliases.entries, P e.2 := by
  constructor
  · intro h e he
    have ha : e.1 ∈ r.aliasNames := .inl (List.mem_map_of_mem he)
    have hget : (r.rename ρ).aliases.get? (ρ e.1) = some e.2 := by
      rw [get?_rename hρ ha]
      exact Sorted.get?_eq_some_iff.2 he
    exact h (ρ e.1, e.2) (Sorted.get?_eq_some_iff.1 hget)
  · intro h e he
    obtain ⟨e', he', rfl⟩ := List.mem_map.1 (Sorted.mem_entries_ofList he)
    exact h e' he'

theorem isAttached_rename : (r.rename ρ).isAttached table = r.isAttached table := by
  have hcontains : (r.rename ρ).links.contains table = r.links.contains table :=
    Sorted.contains_map
  unfold isAttached
  rw [hcontains]
  rfl

theorem usable_rename_iff : (r.rename ρ).Usable bound table ↔ r.Usable bound table := by
  unfold Usable
  rw [isAttached_rename]

theorem sound_rename_iff (hρ : Set.InjOn ρ r.aliasNames) (hc : c ∈ r.allComparisons) :
    (r.rename ρ).Sound bound (c.rename ρ) ↔ r.Sound bound c := by
  unfold Sound Comparison.rename
  refine and_congr usable_rename_iff ?_
  cases hv : c.value with
  | column aliasName field =>
    have ha : aliasName ∈ r.aliasNames := .inr ⟨c, hc, by rw [hv]; rfl⟩
    simp only [Value.rename, Value.column.injEq, and_imp, forall_apply_eq_imp_iff, forall_eq',
      usable_rename_iff, get?_rename hρ ha]
  | none | literal _ | list _ => simp [Value.rename]

theorem sound_conditions_rename_iff (bound : Option Nat) (ps : List Predicate)
    (hρ : Set.InjOn ρ r.aliasNames) (hps : ∀ c ∈ comparisons ps, c ∈ r.allComparisons) :
    (∀ c ∈ comparisons (Predicate.mapComparisons (Comparison.rename ρ) ps),
      (r.rename ρ).Sound bound c) ↔ ∀ c ∈ comparisons ps, r.Sound bound c := by
  rw [comparisons_mapComparisons, List.forall_mem_map]
  exact forall₂_congr fun c hc => sound_rename_iff hρ (hps c hc)

theorem valid_rename_iff (hρ : Set.InjOn ρ r.aliasNames) : (r.rename ρ).Valid ↔ r.Valid := by
  have hunlinked : (r.rename ρ).links.contains 0 = r.links.contains 0 := Sorted.contains_map
  have hlinks {P : Nat × Link → Prop} : (∀ e ∈ (r.rename ρ).links.entries, P e) ↔
      ∀ e ∈ r.links.entries, P (e.1, e.2.mapComparisons (Comparison.rename ρ)) :=
    List.forall_mem_map
  have hlink {e : Nat × Link} (he : e ∈ r.links.entries) :=
    sound_conditions_rename_iff (some e.1) e.2.conditions hρ fun c hc =>
      List.mem_append_left _ (List.mem_flatMap.2 ⟨e, he, hc⟩)
  have hfilter := sound_conditions_rename_iff none r.conditions hρ fun c hc =>
    List.mem_append_right _ hc
  constructor
  · intro h
    exact {
      root := h.root
      root_unlinked := hunlinked ▸ h.root_unlinked
      link := fun e he => isAttached_rename (ρ := ρ) ▸ hlinks.1 h.link e he
      link_sound := fun e he => (hlink he).1 (hlinks.1 h.link_sound e he)
      link_filled := fun e he => filled_mapComparisons_iff.1 (hlinks.1 h.link_filled e he)
      field := fun table ht => isAttached_rename (ρ := ρ) ▸ h.field table ht
      sound := hfilter.1 h.sound
      filled := filled_mapComparisons_iff.1 h.filled
      order := fun term ht => isAttached_rename (ρ := ρ) ▸ h.order term ht
      aliased := (aliased_rename_iff (P := (· < r.classes.length)) hρ).1 h.aliased }
  · intro h
    exact {
      root := h.root
      root_unlinked := hunlinked.trans h.root_unlinked
      link := hlinks.2 fun e he => by
        rw [isAttached_rename]
        exact h.link e he
      link_sound := hlinks.2 fun e he => (hlink he).2 (h.link_sound e he)
      link_filled := hlinks.2 fun e he => filled_mapComparisons_iff.2 (h.link_filled e he)
      field := fun table ht => isAttached_rename.trans (h.field table ht)
      sound := hfilter.2 h.sound
      filled := filled_mapComparisons_iff.2 h.filled
      order := fun term ht => isAttached_rename.trans (h.order term ht)
      aliased := (aliased_rename_iff (P := (· < r.classes.length)) hρ).2 h.aliased }

theorem exists_sound (h : r.Valid) (hc : c ∈ r.allComparisons) : ∃ bound, r.Sound bound c := by
  rcases List.mem_append.1 hc with hc | hc
  · obtain ⟨e, he, hc⟩ := List.mem_flatMap.1 hc
    exact ⟨some e.1, h.link_sound e he c hc⟩
  · exact ⟨none, h.sound c hc⟩

end Request

namespace Compiler

variable {k : Compiler} {r : Request} {ρ : String → String} {c : Comparison}

/-- A comparison whose alias names a table is written alike under the new alias. -/
theorem comparison_rename {bound : Option Nat} (hρ : Set.InjOn ρ r.aliasNames)
    (hc : c ∈ r.allComparisons) (hs : r.Sound bound c) :
    k.comparison (r.rename ρ) (c.rename ρ) = k.comparison r c := by
  unfold comparison operand Comparison.rename
  cases hv : c.value with
  | column aliasName field =>
    have ha : aliasName ∈ r.aliasNames := .inr ⟨c, hc, by rw [hv]; rfl⟩
    obtain ⟨table, hold, -⟩ := hs.2 aliasName field hv
    have hnew : (r.rename ρ).aliases.get? (ρ aliasName) = some table :=
      (Request.get?_rename hρ ha).trans hold
    simp only [Value.rename, Request.tableOf_eq_ok_iff.2 hold, Request.tableOf_eq_ok_iff.2 hnew]
  | none | literal _ | list _ => rfl

theorem body_rename (hρ : Set.InjOn ρ r.aliasNames) (h : r.Valid) :
    k.body (r.rename ρ) = k.body r := by
  refine body_mapComparisons (f := Comparison.rename ρ) rfl rfl (fun i _ => rfl) fun c hc => ?_
  obtain ⟨bound, hs⟩ := Request.exists_sound h hc
  exact comparison_rename hρ hc hs

/-- A request and the same request with its aliases renamed are valid alike, and whatever statement
is made for one of them is made for the other. -/
theorem statements_rename (k : Compiler) (r : Request) (ρ : String → String)
    (hρ : Set.InjOn ρ r.aliasNames) :
    ((r.rename ρ).validate = .ok () ↔ r.validate = .ok ()) ∧
    (∀ q, k.select (r.rename ρ) = .ok q ↔ k.select r = .ok q) ∧
    ∀ q, k.count (r.rename ρ) = .ok q ↔ k.count r = .ok q := by
  have hvalid : (r.rename ρ).validate = .ok () ↔ r.validate = .ok () := by
    rw [Request.validate_eq_ok_iff_valid, Request.validate_eq_ok_iff_valid,
      Request.valid_rename_iff hρ]
  by_cases hv : r.validate = .ok ()
  · have hbody : k.body (r.rename ρ) = k.body r := body_rename hρ (Request.valid_of_validate hv)
    have hsame : (r.rename ρ).validate = r.validate := (hvalid.2 hv).trans hv.symm
    obtain ⟨hselect, hcount⟩ : k.select (r.rename ρ) = k.select r ∧
        k.count (r.rename ρ) = k.count r := statements_congr rfl hsame hbody
    refine ⟨hvalid, fun q => ?_, fun q => ?_⟩
    · rw [hselect]
    · rw [hcount]
  · -- Without validity neither request has a statement.
    have hv' : (r.rename ρ).validate ≠ .ok () := mt hvalid.1 hv
    refine ⟨hvalid, fun q => iff_of_false ?_ ?_, fun q => iff_of_false ?_ ?_⟩
    · exact fun h => hv' (select_eq_ok_iff.1 h).1
    · exact fun h => hv (select_eq_ok_iff.1 h).1
    · exact fun h => hv' (count_eq_ok_iff.1 h).1
    · exact fun h => hv (count_eq_ok_iff.1 h).1

/-- The sample with a longer alias. -/
theorem statements_rename_sample :
    Set.InjOn ("the_" ++ ·) Request.sample.aliasNames ∧
      (Request.sample.rename ("the_" ++ ·)).aliases.keys = ["the_user"] ∧
      ∃ q, shop.select (Request.sample.rename ("the_" ++ ·)) = .ok q ∧
        shop.select .sample = .ok q := by
  have hinj : Set.InjOn ("the_" ++ ·) Request.sample.aliasNames :=
    fun a _ b _ h => (String.append_right_inj "the_").1 h
  obtain ⟨-, hselect, -⟩ := statements_rename shop .sample ("the_" ++ ·) hinj
  obtain ⟨q, hq⟩ : ∃ q, shop.select .sample = .ok q := ⟨_, rfl⟩
  exact ⟨hinj, by decide, q, (hselect q).2 hq, hq⟩

end Compiler

end QueryCompiler
