import QueryCompiler.Proofs.Sql.Checks
import QueryCompiler.Proofs.Sql.Renderable
import QueryCompiler.Proofs.Sql.StatementText
import QueryCompiler.Proofs.ValidRequest

/-!
# Which requests become statements

A request can be compiled if and only if it is valid, the catalog has the classes of its tables,
and its filters hold renderable comparisons only. To give rows it has to select a field, too.

1. `exists_body_iff_compilable`: what validity says of tables and aliases leaves each comparison
   to its operator, its value and its type.
2. `resolves_comparison`, `resolves_body`: since a valid request has a class for each of its
   tables and a table for each of its aliases, no fault is about one of these.

Main statement: `compiles_iff`.
-/

namespace QueryCompiler

open Outcome Predicate

namespace Compiler

variable {k : Compiler} {r : Request} {c : Comparison}

/-! ## Requests -/

/-- Every comparison of a filter can be written, at any depth. -/
def RendersAll (k : Compiler) (r : Request) (ps : List Predicate) : Prop :=
  ∀ connector c, Occurs (.comparison connector c) ps → k.Renderable r c

/-- The catalog has the classes of the root and of all linked tables. -/
structure KnowsTables (k : Compiler) (r : Request) : Prop where
  root : k.Knows r 0
  link : ∀ i link, r.links.get? i = some link → k.Knows r i

/-- A valid request over classes of the catalog, with filters that can be written. -/
structure Compilable (k : Compiler) (r : Request) : Prop where
  valid : r.validate = .ok ()
  known : k.KnowsTables r
  link : ∀ i link, r.links.get? i = some link → k.RendersAll r link.conditions
  filter : k.RendersAll r r.conditions

theorem KnowsTables.of_isAttached (hk : k.KnowsTables r) {table : Nat}
    (h : r.isAttached table = true) : k.Knows r table := by
  rcases (Request.isAttached_iff.1 h).2 with h0 | hl
  · rw [h0]
    exact hk.root
  · obtain ⟨link, hlink⟩ := Option.isSome_iff_exists.1 hl
    exact hk.link table link hlink

/-- What validity says of a comparison makes its tables known, if those of the request are. -/
theorem exists_comparison_iff_of_sound {bound : Option Nat} (hk : k.KnowsTables r)
    (hs : r.Sound bound c) : (∃ q, k.comparison r c = .ok q) ↔ k.Renderable r c := by
  refine exists_comparison_iff (hk.of_isAttached hs.1.1) fun aliasName field hv => ?_
  obtain ⟨table, htable, -⟩ := hs.2 aliasName field hv
  exact ⟨table, Request.tableOf_eq_ok_iff.2 htable⟩

theorem rendersAll_iff {bound : Option Nat} {ps : List Predicate} (hk : k.KnowsTables r)
    (hs : ∀ c ∈ comparisons ps, r.Sound bound c) :
    (∀ c ∈ comparisons ps, ∃ q, k.comparison r c = .ok q) ↔ k.RendersAll r ps := by
  constructor
  · intro h connector c hc
    have hmem : c ∈ comparisons ps := mem_comparisons_iff.2 ⟨connector, hc⟩
    exact (exists_comparison_iff_of_sound hk (hs c hmem)).1 (h c hmem)
  · intro h c hmem
    obtain ⟨connector, hc⟩ := mem_comparisons_iff.1 hmem
    exact (exists_comparison_iff_of_sound hk (hs c hmem)).2 (h connector c hc)

/-- For a valid request the body can be written if and only if the request is compilable. -/
theorem exists_body_iff_compilable (hv : r.validate = .ok ()) :
    (∃ q, k.body r = .ok q) ↔ k.Compilable r := by
  have hr := Request.valid_of_validate hv
  rw [exists_body_iff]
  simp only [exists_tableName_iff]
  constructor
  · rintro ⟨hroot, hlinks, hfilter⟩
    have hmem {i : Nat} {link : Link} (h : r.links.get? i = some link) :
        (i, link) ∈ r.links.entries := Sorted.get?_eq_some_iff.1 h
    have hk : k.KnowsTables r := ⟨hroot, fun i link h => (hlinks _ (hmem h)).1⟩
    exact {
      valid := hv
      known := hk
      link := fun i link h =>
        (rendersAll_iff hk (hr.link_sound _ (hmem h))).1 (hlinks _ (hmem h)).2
      filter := (rendersAll_iff hk hr.sound).1 hfilter }
  · rintro ⟨-, hk, hlinks, hfilter⟩
    refine ⟨hk.root, fun e he => ?_, (rendersAll_iff hk hr.sound).2 hfilter⟩
    have hget : r.links.get? e.1 = some e.2 := Sorted.get?_eq_some_iff.2 he
    exact ⟨hk.link _ _ hget, (rendersAll_iff hk (hr.link_sound e he)).2 (hlinks _ _ hget)⟩

end Compiler

/-! ## Faults -/

/-- A fault about a table, or about an alias without one. -/
def Fault.Dangling : Fault → Prop
  | .unknownTable _ _ => True
  | .invalidValue (.unknownAlias _) => True
  | _ => False

/-- A step that does not fail for a table or an alias. -/
def Resolves {α : Type} (x : Except Fault α) : Prop := ∀ e, x = .error e → ¬ e.Dangling

namespace Resolves

variable {α β : Type}

theorem ok (a : α) : Resolves (.ok a) := nofun

theorem bind {x : Except Fault α} {f : α → Except Fault β} (hx : Resolves x)
    (hf : ∀ a, x = .ok a → Resolves (f a)) : Resolves (x >>= f) :=
  FailsOnly.bind hx hf

theorem map {x : Except Fault α} {f : α → β} (hx : Resolves x) : Resolves (f <$> x) :=
  FailsOnly.map hx

theorem error {e : Fault} (h : ¬ e.Dangling) : Resolves (.error e : Except Fault α) :=
  FailsOnly.error h

end Resolves

namespace Literal

theorem resolves_ofFloat (x : Float) : Resolves (ofFloat x) := by
  intro e h
  rw [(ofFloat_eq_error_iff.1 h).2]
  exact id

theorem resolves_coerce (type : DomainType) (s : Scalar) : Resolves (coerce type s) := by
  cases type with
  | float =>
    refine .bind ?_ fun x _ => resolves_ofFloat x
    unfold floatOf
    cases s.toFloat? with
    | none => exact .error id
    | some x => exact .ok x
  | string | json | integer | timestamp | dateTime | other => exact .ok _

theorem resolves_element (s : Scalar) : Resolves (element s) := by
  intro e h
  obtain ⟨x, -, hx⟩ := element_eq_error_iff.1 h
  exact resolves_ofFloat x e hx

end Literal

namespace Compiler

variable {k : Compiler} {r : Request} {c : Comparison}

theorem resolves_find (name : String) : Resolves (k.catalog.find name) := by
  unfold Catalog.find
  cases k.catalog.entities.get? name with
  | none => exact .error id
  | some entity => exact .ok entity

theorem resolves_fragment (column : Sql) (op : Operator) (o : Operand) :
    Resolves (k.fragment column op o) := by
  have hsingle : Resolves (o.single? op) := by
    cases o <;> first | exact .ok _ | exact .error id
  have hlist : Resolves (o.list? op) := by
    cases o <;> first | exact .ok _ | exact .error id
  cases op with
  | isNull | isNotNull => exact .ok _
  | greater | less | greaterEqual | lessEqual | equal | notEqual | like | likeAnyCase =>
    exact hsingle.bind fun _ _ => .ok _
  | isIn | isNotIn => exact hlist.bind fun _ _ => .ok _

theorem classOf_of_lt {table : Nat} (h : table < r.classes.length) :
    r.classOf table = .ok r.classes[table] :=
  Request.classOf_eq_ok_iff.2 (List.getElem?_eq_getElem h)

theorem resolves_tableName {table : Nat} (h : table < r.classes.length) :
    Resolves (k.tableName r table) := by
  unfold tableName
  rw [classOf_of_lt h]
  exact (resolves_find _).map

/-- A comparison between tables that are there resolves. -/
theorem resolves_comparison {bound : Option Nat} (h : r.Sound bound c) :
    Resolves (k.comparison r c) := by
  refine .bind ?_ fun o _ => resolves_fragment _ _ o
  unfold operand
  by_cases ht : c.operator.takesValue = true
  · rw [if_pos ht]
    cases hv : c.value with
    | none => exact .ok _
    | literal s =>
      have hclass := classOf_of_lt (Request.isAttached_iff.1 h.1.1).1
      simp only [hclass, ok_bind]
      exact .bind (resolves_find _).map fun type _ =>
        .bind (Literal.resolves_coerce type s) fun _ _ => .ok _
    | column aliasName field =>
      obtain ⟨table, htable, -⟩ := h.2 aliasName field hv
      simp only [Request.tableOf_eq_ok_iff.2 htable, ok_bind]
      by_cases hf : isIdentifier field = true
      · rw [if_pos hf]
        exact .ok _
      · rw [if_neg hf]
        exact .error id
    | list items =>
      refine .bind (fun e he => ?_) fun _ _ => .ok _
      obtain ⟨s, -, hs⟩ := mapM_eq_error he
      exact Literal.resolves_element s e hs
  · rw [if_neg ht]
    exact .ok _

/-- The body of a valid request resolves, since each of its parts does. -/
theorem resolves_body (hr : r.Valid) : Resolves (k.body r) := by
  have htable {table : Nat} (h : table < r.classes.length) :
      Resolves (check (k.tableName r table)) :=
    fun e he => resolves_tableName h e (check_eq_error_iff.1 he)
  have hfilter {bound : Option Nat} {ps : List Predicate}
      (h : ∀ c ∈ comparisons ps, r.Sound bound c) : ∀ x ∈ k.filterChecks r ps, Resolves x := by
    simp only [filterChecks, List.forall_mem_map]
    exact fun c hc e he => resolves_comparison (h c hc) e (check_eq_error_iff.1 he)
  have hparts : ∀ x ∈ k.bodyChecks r, Resolves x := by
    simp only [bodyChecks, linkChecks, List.forall_mem_cons, List.forall_mem_append,
      List.forall_mem_flatMap]
    exact ⟨htable (List.length_pos_iff.2 hr.root),
      fun e he => ⟨htable (hr.link e he).1, hfilter (hr.link_sound e he)⟩, hfilter hr.sound⟩
  intro e h
  exact hparts _ (mem_bodyChecks_of_error h) e rfl

/-! ## The two statements -/

/-- The statement that counts the rows exists if and only if the request is compilable, the one
that gives them if in addition some field is selected. On a valid request neither fails for a
table or an alias that leads nowhere. -/
theorem compiles_iff (k : Compiler) (r : Request) :
    ((∃ q, k.count r = .ok q) ↔ k.Compilable r) ∧
    ((∃ q, k.select r = .ok q) ↔ k.Compilable r ∧ ∃ e ∈ r.fields.entries, e.2 ≠ []) ∧
    (r.validate = .ok () → ∀ e, k.count r = .error e ∨ k.select r = .error e → ¬ e.Dangling) := by
  have hbody : (r.validate = .ok () ∧ ∃ q, k.body r = .ok q) ↔ k.Compilable r :=
    ⟨fun h => (exists_body_iff_compilable h.1).1 h.2,
      fun h => ⟨h.valid, (exists_body_iff_compilable h.valid).2 h⟩⟩
  refine ⟨?_, ?_, fun hv e he => ?_⟩
  · simp only [count_eq_ok_iff, ← hbody]
    constructor
    · rintro ⟨_, hv, b, hb, -⟩
      exact ⟨hv, b, hb⟩
    · rintro ⟨hv, b, hb⟩
      exact ⟨_, hv, b, hb, rfl⟩
  · simp only [select_eq_ok_iff, isEmpty_selected_eq_false_iff, ← hbody]
    constructor
    · rintro ⟨_, hv, hs, b, hb, -⟩
      exact ⟨⟨hv, b, hb⟩, hs⟩
    · rintro ⟨⟨hv, b, hb⟩, hs⟩
      exact ⟨_, hv, hs, b, hb, rfl⟩
  · have hresolves := resolves_body (k := k) (Request.valid_of_validate hv)
    rcases he with he | he
    · rw [count, hv, ok_bind] at he
      exact hresolves.bind (fun _ _ => .ok _) e he
    · rw [select, hv, ok_bind] at he
      by_cases hs : (selected r).isEmpty = true
      · rw [if_pos hs] at he
        exact Resolves.error id e he
      · rw [if_neg hs] at he
        exact hresolves.bind (fun _ _ => .ok _) e he

/-- The sample is compilable for the shop. For a catalog without its classes it is valid all the
same, and what fails is the look-up of a class. -/
theorem compiles_iff_sample :
    shop.Compilable .sample ∧ Request.sample.validate = .ok () ∧
      ∃ e, ({ shop with catalog := ∅ }).count .sample = .error e ∧ ¬ e.Dangling :=
  ⟨(compiles_iff shop .sample).1.1 ⟨_, rfl⟩, rfl, _, rfl,
    (compiles_iff { shop with catalog := ∅ } .sample).2.2 rfl _ (.inl rfl)⟩

end Compiler

end QueryCompiler
