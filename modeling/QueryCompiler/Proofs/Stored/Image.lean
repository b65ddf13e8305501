import QueryCompiler.Proofs.Json.Range
import QueryCompiler.Proofs.Outcome
import QueryCompiler.Proofs.Stored.RequestText

/-!
# What is read can be stored

A request that is read holds nothing that its own stored form would lose: no date-time is ever
read, an integer beyond a signed word has become a float that is a number, and words count the
tables. So it comes back from its stored form, and from the text of that if the text keeps it.

1. `Scalar.isKept_of_ofJson?`: by the form of the JSON value.
2. `Predicate.isKept_of_ofJson?`: along the reader of filters, which goes into a group by name or by
   position.
3. `Request.parts_of_ofJson?` says where keys and scalars come from; `isKept_of_ofJson?` and
   `storable_of_ofJson?` follow.

Main statement: `Request.stored_form_stable`.
-/

namespace QueryCompiler

open Json Decimal

/-! ## Scalars and values -/

namespace Scalar

/-- A scalar that is kept as it is: no date-time, and no float that is no number. -/
def IsKept (s : Scalar) : Prop := s.IsFinite ∧ ∀ t, s ≠ dateTime t

theorem isFinite_ofInt_of_word? {n : Int} (hn : -0x8000000000000000 ≤ n ∧ n < UInt64.size)
    (hw : word? n = none) : (float (Float.ofInt n)).IsFinite := by
  have hpos : 0 ≤ n := by
    rw [word?] at hw
    split at hw
    · cases hw
    · omega
  obtain ⟨m, rfl⟩ := Int.eq_ofNat_of_zero_le hpos
  have hm : m < 2 ^ 64 := Int.ofNat_lt.1 hn.2
  exact isFinite_ofNat hm

theorem isKept_of_ofJson? {j : Json} {s : Scalar} (hj : InRange j) (h : ofJson? j = some s) :
    s.IsKept := by
  cases hj with
  | bool b =>
    cases h
    exact ⟨trivial, by simp⟩
  | int hn =>
    rename_i n
    cases hw : word? n with
    | none =>
      simp only [ofJson?, ofJson, hw] at h
      cases h
      exact ⟨isFinite_ofInt_of_word? hn hw, by simp⟩
    | some w =>
      simp only [ofJson?, ofJson, hw] at h
      cases h
      exact ⟨trivial, by simp⟩
  | float hx =>
    cases h
    exact ⟨hx, by simp⟩
  | text s =>
    cases h
    exact ⟨trivial, by simp⟩
  | _ => cases h

end Scalar

theorem Value.isKept_of_ofJson? {j : Json} {v : Value} (hj : InRange j)
    (h : ofJson? j = some v) : ∀ s ∈ v.scalars, s.IsKept := by
  unfold ofJson? at h
  split at h
  · cases h
    simp [scalars]
  · cases h
    simp [scalars]
  · rename_i body hbody
    obtain ⟨s, hs, rfl⟩ := Option.map_eq_some_iff.1 h
    intro s' hs'
    cases List.mem_singleton.1 hs'
    exact Scalar.isKept_of_ofJson? (inRange_of_variant? hj hbody) hs
  · obtain ⟨fields, -, h⟩ := Option.bind_eq_some_iff.1 h
    split at h
    · simp only [Option.bind_eq_bind, Option.bind_eq_some_iff] at h
      obtain ⟨aliasName, -, field, -, h⟩ := h
      cases h
      simp [scalars]
    · cases h
  · rename_i body hbody
    obtain ⟨items, hitems, rfl⟩ := Option.map_eq_some_iff.1 h
    intro s hs
    obtain ⟨x, hx, hread⟩ := exists_of_mem_of_asList? (inRange_of_variant? hj hbody) hitems hs
    exact Scalar.isKept_of_ofJson? hx hread
  · cases h

theorem Comparison.isKept_of_ofJson? {j : Json} {c : Comparison} (hj : InRange j)
    (h : ofJson? j = some c) : ∀ s ∈ c.value.scalars, s.IsKept := by
  obtain ⟨fields, hfields, h⟩ := Option.bind_eq_some_iff.1 h
  split at h
  · rename_i table field operator value
    simp only [Option.bind_eq_bind, Option.bind_eq_some_iff] at h
    obtain ⟨table, -, field, -, operator, -, v, hv, h⟩ := h
    cases h
    obtain ⟨x, hx, hv⟩ := exists_of_required? hj hfields (by simp) hv
    exact Value.isKept_of_ofJson? hx hv
  · cases h

/-! ## Filters -/

namespace Predicate

theorem isKept_of_comparisonOfJson? {j : Json} {p : Predicate} (hj : InRange j)
    (h : comparisonOfJson? j = some p) : ∀ s ∈ heldScalars [p], s.IsKept := by
  obtain ⟨fields, hfields, h⟩ := Option.bind_eq_some_iff.1 h
  split at h
  · rename_i connector c
    simp only [Option.bind_eq_bind, Option.bind_eq_some_iff] at h
    obtain ⟨connector, -, c', hc, h⟩ := h
    cases h
    obtain ⟨x, hx, hc⟩ := exists_of_required? hj hfields (by simp) hc
    rw [heldScalars_comparison_cons]
    exact List.forall_mem_append.2
      ⟨Comparison.isKept_of_ofJson? hx hc, fun s hs => absurd hs List.not_mem_nil⟩
  · cases h

theorem isKept_group {connector : Option Connector} {children : List Predicate}
    (h : ∀ s ∈ heldScalars children, s.IsKept) :
    ∀ s ∈ heldScalars [.group connector children], s.IsKept := by
  rw [heldScalars_group_cons]
  exact List.forall_mem_append.2 ⟨h, fun s hs => absurd hs List.not_mem_nil⟩

theorem heldScalars_cons (p : Predicate) (ps : List Predicate) :
    heldScalars (p :: ps) = heldScalars [p] ++ heldScalars ps := by
  simp [heldScalars, comparisons]

mutual

theorem isKept_of_ofJson? : ∀ {j : Json} {p : Predicate}, InRange j → ofJson? j = some p →
    ∀ s ∈ heldScalars [p], s.IsKept
  | .object _ [(_, _)], _, hj, h =>
    isKept_of_ofVariant? (inRange_object_iff.1 hj _ List.mem_cons_self) h

theorem isKept_of_ofVariant? {tag : String} : ∀ {j : Json} {p : Predicate}, InRange j →
    ofVariant? tag j = some p → ∀ s ∈ heldScalars [p], s.IsKept
  | .object _ members, _, hj, h => by
    rw [ofVariant?] at h
    split at h
    · exact isKept_of_comparisonOfJson? hj h
    · split at h
      · simp only [Option.bind_eq_bind, Option.bind_eq_some_iff] at h
        obtain ⟨_, -, connector, -, _, -, children, hchildren, h⟩ := h
        cases h
        exact isKept_group (isKept_of_ofMembers? (inRange_object_iff.1 hj) hchildren)
      · cases h
  | .array [_, children], _, hj, h => by
    rw [ofVariant?] at h
    split at h
    · exact isKept_of_comparisonOfJson? hj h
    · split at h
      · simp only [Option.bind_eq_bind, Option.bind_eq_some_iff] at h
        obtain ⟨connector, -, ps, hps, h⟩ := h
        cases h
        have hchildren : InRange children :=
          inRange_array_iff.1 hj children (.tail _ List.mem_cons_self)
        exact isKept_group (isKept_of_ofArray? hchildren hps)
      · cases h

theorem isKept_of_ofMembers? : ∀ {members : List (String × Json)} {ps : List Predicate},
    (∀ m ∈ members, InRange m.2) → ofMembers? members = some ps → ∀ s ∈ heldScalars ps, s.IsKept
  | (_, _) :: _, _, hj, h => by
    obtain ⟨hj, hms⟩ := List.forall_mem_cons.1 hj
    rw [ofMembers?] at h
    split at h
    · exact isKept_of_ofArray? hj h
    · exact isKept_of_ofMembers? hms h

theorem isKept_of_ofArray? : ∀ {j : Json} {ps : List Predicate}, InRange j →
    ofArray? j = some ps → ∀ s ∈ heldScalars ps, s.IsKept
  | .array _, _, hj, h => isKept_of_ofItems? (inRange_array_iff.1 hj) h

theorem isKept_of_ofItems? : ∀ {items : List Json} {ps : List Predicate},
    (∀ j ∈ items, InRange j) → ofItems? items = some ps → ∀ s ∈ heldScalars ps, s.IsKept
  | [], _, _, h => by
    cases h
    exact fun s hs => absurd hs List.not_mem_nil
  | _ :: _, _, hj, h => by
    obtain ⟨hj, hjs⟩ := List.forall_mem_cons.1 hj
    rw [ofItems?] at h
    simp only [Option.bind_eq_bind, Option.bind_eq_some_iff] at h
    obtain ⟨p, hp, ps, hps, h⟩ := h
    cases h
    rw [heldScalars_cons]
    exact List.forall_mem_append.2 ⟨isKept_of_ofJson? hj hp, isKept_of_ofItems? hjs hps⟩

end

end Predicate

/-! ## Links and requests -/

theorem Link.isKept_of_ofJson? {j : Json} {l : Link} (hj : InRange j) (h : ofJson? j = some l) :
    ∀ s ∈ Predicate.heldScalars l.conditions, s.IsKept := by
  obtain ⟨fields, hfields, h⟩ := Option.bind_eq_some_iff.1 h
  split at h
  · rename_i conditions
    simp only [Option.bind_eq_bind, Option.bind_eq_some_iff] at h
    obtain ⟨kind, -, leftTable, -, leftField, -, rightField, -, ps, hps, h⟩ := h
    cases h
    obtain ⟨x, hx, hps⟩ := exists_of_required? hj hfields (by simp) hps
    exact Predicate.isKept_of_ofArray? hx hps
  · cases h

namespace Request

variable {j : Json} {r : Request}

/-- Where the parts of a request that hold keys and scalars are read from. -/
theorem parts_of_ofJson? (hj : InRange j) (h : ofJson? j = some r) :
    (∃ x es, InRange x ∧ x.asTables? (asList? asText?) = some es ∧ r.fields = Ordered.ofList es) ∧
      (∃ x es, InRange x ∧ x.asTables? Link.ofJson? = some es ∧ r.links = Sorted.ofList es) ∧
        ∃ x, InRange x ∧ Predicate.ofArray? x = some r.conditions := by
  obtain ⟨parts, hparts, h⟩ := Option.bind_eq_some_iff.1 h
  split at h
  · simp only [Option.bind_eq_bind, Option.bind_eq_some_iff] at h
    obtain ⟨classes, -, fields, hfields, links, hlinks, ps, hps, order, -, lines, -, offset, -,
      distinct, -, aliases, -, h⟩ := h
    cases h
    obtain ⟨x, hx, hfields⟩ := exists_of_required? hj hparts (by simp) hfields
    obtain ⟨es, hes, rfl⟩ := Option.map_eq_some_iff.1 hfields
    obtain ⟨y, hy, hlinks⟩ := exists_of_required? hj hparts (by simp) hlinks
    obtain ⟨ls, hls, rfl⟩ := Option.map_eq_some_iff.1 hlinks
    exact ⟨⟨x, es, hx, hes, rfl⟩, ⟨y, ls, hy, hls, rfl⟩,
      exists_of_required? hj hparts (by simp) hps⟩
  · cases h

theorem isKept_of_ofJson? (hj : InRange j) (h : ofJson? j = some r) :
    ∀ s ∈ r.heldScalars, s.IsKept := by
  obtain ⟨-, ⟨y, links, hy, hlinks, hr⟩, z, hz, hps⟩ := parts_of_ofJson? hj h
  refine List.forall_mem_append.2 ⟨Predicate.isKept_of_ofArray? hz hps, fun s hs => ?_⟩
  obtain ⟨e, he, hs⟩ := List.mem_flatMap.1 hs
  rw [hr] at he
  obtain ⟨-, x, hx, hread⟩ := exists_of_mem_of_asTables? hy hlinks (Sorted.mem_entries_ofList he)
  exact Link.isKept_of_ofJson? hx hread s hs

theorem storable_of_ofJson? (hj : InRange j) (h : ofJson? j = some r) : r.Storable := by
  obtain ⟨⟨x, fields, hx, hfields, hrf⟩, ⟨y, links, hy, hlinks, hrl⟩, -⟩ := parts_of_ofJson? hj h
  refine ⟨fun s hs => (isKept_of_ofJson? hj h s hs).1, fun table ht => ?_, fun table ht => ?_⟩
  · rw [hrf] at ht
    obtain ⟨e, he, rfl⟩ := List.mem_map.1 ht
    exact (exists_of_mem_of_asTables? hx hfields (Ordered.mem_entries_ofList he)).1
  · rw [hrl] at ht
    obtain ⟨e, he, rfl⟩ := List.mem_map.1 ht
    exact (exists_of_mem_of_asTables? hy hlinks (Sorted.mem_entries_ofList he)).1

theorem readStored_eq_ok_iff {s : String} :
    readStored s = .ok r ↔ ∃ j, Json.read? s = some j ∧ ofJson? j = some r := by
  rw [← Option.bind_eq_some_iff, readStored]
  split
  · rename_i r' h
    simp [h]
  · rename_i h
    simp [h]

/-- The stored form gives the request back as a tree, and as a text if this keeps it. -/
structure ComesBack (r : Request) : Prop where
  tree : ofJson? r.toJson = some r
  text : r.TextStorable → readStored r.toJson.compact = .ok r

/-- The stored form is stable: what is read from a tree with the numbers of JSON comes back from
its own stored form, and so does what is read from a text, and so does every request that words and
finite floats make up. -/
theorem stored_form_stable :
    (∀ {j : Json} {r : Request}, InRange j → ofJson? j = some r → r.ComesBack) ∧
      (∀ {s : String} {r : Request}, readStored s = .ok r → r.ComesBack) ∧
        ∀ {r : Request}, r.Storable → (∀ s ∈ r.heldScalars, ∀ t, s ≠ .dateTime t) →
          r.ComesBack := by
  have hback {r : Request} (h : r.Storable) (ht : ∀ s ∈ r.heldScalars, ∀ t, s ≠ .dateTime t) :
      r.ComesBack := by
    refine ⟨?_, fun htext => readStored_compact_self htext ht⟩
    rw [ofJson?_toJson h, stored_eq_self ht]
  have hread {j : Json} {r : Request} (hj : InRange j) (h : ofJson? j = some r) : r.ComesBack :=
    hback (storable_of_ofJson? hj h) fun s hs => (isKept_of_ofJson? hj h s hs).2
  refine ⟨hread, fun h => ?_, hback⟩
  obtain ⟨j, hj, h⟩ := readStored_eq_ok_iff.1 h
  exact hread (inRange_of_read? hj) h

/-- A stored request in the short form of records, with a table that no class has, a group without
connector and an integer beyond a signed word; a stored text; and a request built by calls. -/
theorem stored_form_stable_sample :
    let j : Json := .array [
      .array [.text "Order"],
      .object false [("1", .array [.text "name"]), ("0", .array [])],
      .object false [("1", .array [.text "Left", .int 0, .text "user_id", .text "id", .array []])],
      .array [.object false [("Group", .array [.null, .array [
        .object false [("Comparison", .object false [("comparison", .array [.int 1, .text "id",
          .text "Gt", .object false [("Literal", .int 0x8000000000000000)]])])]]])]],
      .array [], .int 10, .int 0, .bool true, .object true [("u\n", .int 1)]]
    let s := "[[\"Order\"],\x7b\x7d,\x7b\x7d,[\x7b\"Comparison\":[null,[0,\"total\",\"Gt\","
      ++ "\x7b\"Literal\":9223372036854775808\x7d]]\x7d],[],10,0,true,\x7b\x7d]"
    let r := ((Request.new "Order" "o").select 0 ["id"]).filter
      (.group none [.comparison none ⟨0, "total", .isIn, .list [.float 0.5, .text "x"]⟩])
    (InRange j ∧ ∃ r', ofJson? j = some r' ∧ ofJson? r'.toJson = some r') ∧
      (∃ r', readStored s = .ok r' ∧ ofJson? r'.toJson = some r') ∧
        r.TextStorable ∧ ofJson? r.toJson = some r ∧ readStored r.toJson.compact = .ok r := by
  intro j s r
  have hj : InRange j := by simp [j, InRange.text, InRange.null, InRange.bool]
  have hs : (readStored s).toOption.isSome = true := by decide +kernel
  obtain ⟨r', hs⟩ := Option.isSome_iff_exists.1 hs
  have hs : readStored s = .ok r' := Outcome.toOption_eq_some_iff.1 hs
  have hheld : r.heldScalars = [.float 0.5, .text "x"] := rfl
  have hfloat : (Binary.ofFloat 0.5).isFinite = true := by decide +kernel
  have hr : r.Storable := ⟨by simp [hheld, hfloat, Scalar.IsFinite], by decide, by decide⟩
  have hcomparisons : r.allComparisons
      = [⟨0, "total", .isIn, .list [.float 0.5, .text "x"]⟩] := rfl
  have htext : r.TextStorable := by
    refine ⟨hr, ?_, nofun, nofun, by decide, by decide, nofun⟩
    rw [hcomparisons, List.forall_mem_singleton]
    refine ⟨by decide, ?_⟩
    show ∀ s ∈ [Scalar.float 0.5, .text "x"], s.IsLegible
    rw [List.forall_mem_cons, List.forall_mem_singleton]
    exact ⟨Scalar.isLegible_half, trivial⟩
  have ht : ∀ s ∈ r.heldScalars, ∀ t, s ≠ .dateTime t := by simp [hheld]
  obtain ⟨htree, hstring⟩ := stored_form_stable.2.2 hr ht
  exact ⟨⟨hj, _, rfl, (stored_form_stable.1 hj rfl).tree⟩,
    ⟨r', hs, (stored_form_stable.2.1 hs).tree⟩, htext, htree, hstring htext⟩

end Request

end QueryCompiler
