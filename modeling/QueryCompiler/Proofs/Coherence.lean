import QueryCompiler.Proofs.ValidRequest

/-!
# The table graph of a valid request

What makes the tables of a request hang together, said without the checks: `Coherent` speaks of
classes, of the look-up of links and names, and of what stands in the filters at any depth. The
checks find no fault in exactly the requests that are coherent.

1. `isAttached_iff_attached`: the tables that may be named.
2. `names_iff`: a filter names such tables only, and none of its groups is empty.
3. `valid_iff_coherent`: the facts that the checks establish, read as look-ups.

Main statement: `validate_eq_ok_iff_coherent`.
-/

namespace QueryCompiler.Request

open Predicate

/-- A table with a class that is the root or has a link. -/
def Attached (r : Request) (table : Nat) : Prop :=
  table < r.classes.length ∧ (table = 0 ∨ ∃ link, r.links.get? table = some link)

/-- A filter names allowed tables only, in its comparisons and through the aliases of their
columns on the right, and none of its groups is empty. All this holds at any depth. -/
structure Names (r : Request) (allowed : Nat → Prop) (ps : List Predicate) : Prop where
  table : ∀ connector c, Occurs (.comparison connector c) ps → allowed c.table
  column : ∀ connector c aliasName field, Occurs (.comparison connector c) ps →
    c.value = .column aliasName field →
      ∃ table, r.aliases.get? aliasName = some table ∧ allowed table
  filled : ∀ connector children, Occurs (.group connector children) ps → children ≠ []

/-- The tables of a request hang together: a root without a link, links to earlier tables, and
only attached tables wherever a table is named. The conditions of a link name tables up to its
own. -/
structure Coherent (r : Request) : Prop where
  root : r.classes ≠ []
  root_unlinked : r.links.get? 0 = none
  link : ∀ i link, r.links.get? i = some link →
    i < r.classes.length ∧ link.leftTable < i ∧ r.Attached link.leftTable
  link_filter : ∀ i link, r.links.get? i = some link →
    r.Names (fun table => r.Attached table ∧ table ≤ i) link.conditions
  filter : r.Names r.Attached r.conditions
  field : ∀ table ∈ r.fields.keys, r.Attached table
  order : ∀ term ∈ r.order, r.Attached term.table
  aliased : ∀ aliasName table, r.aliases.get? aliasName = some table → table < r.classes.length

variable {r : Request}

theorem isAttached_iff_attached {table : Nat} : r.isAttached table = true ↔ r.Attached table := by
  rw [isAttached_iff, Sorted.contains, Option.isSome_iff_exists]
  rfl

/-- The comparisons of a filter are sound and its groups filled if and only if it names usable
tables only. -/
theorem names_iff {bound : Option Nat} {allowed : Nat → Prop} {ps : List Predicate}
    (h : ∀ table, allowed table ↔ r.Usable bound table) :
    r.Names allowed ps ↔
      (∀ c ∈ comparisons ps, r.Sound bound c) ∧ ∀ g ∈ groups ps, g ≠ [] := by
  simp only [mem_comparisons_iff, mem_groups_iff]
  constructor
  · intro hn
    refine ⟨?_, fun g ⟨connector, hg⟩ => hn.filled connector g hg⟩
    rintro c ⟨connector, hc⟩
    refine ⟨(h _).1 (hn.table connector c hc), fun aliasName field hv => ?_⟩
    obtain ⟨table, ha, ht⟩ := hn.column connector c aliasName field hc hv
    exact ⟨table, ha, (h table).1 ht⟩
  · rintro ⟨hs, hf⟩
    refine ⟨fun connector c hc => ?_, fun connector c aliasName field hc hv => ?_,
      fun connector children hg => hf children ⟨connector, hg⟩⟩
    · exact (h _).2 (hs c ⟨connector, hc⟩).1
    · obtain ⟨table, ha, ht⟩ := (hs c ⟨connector, hc⟩).2 aliasName field hv
      exact ⟨table, ha, (h table).2 ht⟩

theorem usable_none_iff {table : Nat} : r.Attached table ↔ r.Usable none table := by
  simp [Usable, isAttached_iff_attached]

theorem usable_some_iff {i table : Nat} :
    r.Attached table ∧ table ≤ i ↔ r.Usable (some i) table := by
  simp [Usable, isAttached_iff_attached]

/-- What the checks establish entry by entry is coherence, which speaks of look-ups. -/
theorem valid_iff_coherent : r.Valid ↔ r.Coherent := by
  constructor
  · intro h
    have hmem {i : Nat} {link : Link} (hl : r.links.get? i = some link) :
        (i, link) ∈ r.links.entries := Sorted.get?_eq_some_iff.1 hl
    exact {
      root := h.root
      root_unlinked := by simpa [Sorted.contains] using h.root_unlinked
      link := fun i link hl => by
        simpa [isAttached_iff_attached] using h.link (i, link) (hmem hl)
      link_filter := fun i link hl => (names_iff fun _ => usable_some_iff).2
        ⟨h.link_sound _ (hmem hl), h.link_filled _ (hmem hl)⟩
      filter := (names_iff fun _ => usable_none_iff).2 ⟨h.sound, h.filled⟩
      field := fun table ht => isAttached_iff_attached.1 (h.field table ht)
      order := fun term ht => isAttached_iff_attached.1 (h.order term ht)
      aliased := fun _ _ ha => h.aliased _ (Sorted.get?_eq_some_iff.1 ha) }
  · intro h
    have hget {e : Nat × Link} (he : e ∈ r.links.entries) : r.links.get? e.1 = some e.2 :=
      Sorted.get?_eq_some_iff.2 he
    have hlink {e : Nat × Link} (he : e ∈ r.links.entries) :=
      (names_iff fun _ => usable_some_iff).1 (h.link_filter _ _ (hget he))
    obtain ⟨hsound, hfilled⟩ := (names_iff fun _ => usable_none_iff).1 h.filter
    exact {
      root := h.root
      root_unlinked := by simp [Sorted.contains, h.root_unlinked]
      link := fun e he => by
        simpa [isAttached_iff_attached] using h.link _ _ (hget he)
      link_sound := fun e he => (hlink he).1
      link_filled := fun e he => (hlink he).2
      field := fun table ht => isAttached_iff_attached.2 (h.field table ht)
      sound := hsound
      filled := hfilled
      order := fun term ht => isAttached_iff_attached.2 (h.order term ht)
      aliased := fun _ he => h.aliased _ _ (Sorted.get?_eq_some_iff.2 he) }

/-- The checks find no fault in a request if and only if its tables hang together. -/
theorem validate_eq_ok_iff_coherent (r : Request) : r.validate = .ok () ↔ r.Coherent :=
  validate_eq_ok_iff_valid.trans valid_iff_coherent

end QueryCompiler.Request
