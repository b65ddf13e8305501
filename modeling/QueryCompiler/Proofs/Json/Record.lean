import QueryCompiler.Json.Record
import Mathlib.Data.List.Basic

/-!
# Records in JSON, both ways

What is written into a list or a map is read out of it again, and what is read out of a record is
one of its parts.

1. `tableKey?_toString`: a table index is its own key.
2. `asMembers?_map` and `asTables?_map`: a map comes back if its values do, as `mapM_map_of_forall` says for
   each of them alike.
3. `InRange` holds of a tree whose numbers are those of JSON: integers of 64 bits, signed or not,
   and finite floats. `inRange_of_record?` takes it down to the fields of a record.

Main statements: `asTables?_map` and `inRange_of_record?`.
-/

namespace QueryCompiler.Json

open Decimal

variable {α β γ : Type}

/-! ## Keys of tables -/

theorem toDigits_head {n : Nat} (hn : n ≠ 0) : (Nat.toDigits 10 n).head? ≠ some '0' := by
  induction n using Nat.strongRecOn with
  | _ n ih =>
    rw [Nat.toDigits_eq_if (by decide)]
    split
    · rename_i h
      have hdigit : ∀ m < 10, m ≠ 0 → Nat.digitChar m ≠ '0' := by decide
      exact fun h0 => hdigit n h hn (Option.some.inj h0)
    · rename_i h
      have hlt : n / 10 < n := by omega
      have hne : n / 10 ≠ 0 := by omega
      rw [List.head?_append_of_ne_nil _ Nat.toDigits_ne_nil]
      exact ih (n / 10) hlt hne

/-- A table index in digits is its own key. -/
theorem tableKey?_toString {n : Nat} (hn : n < UInt64.size) : tableKey? (toString n) = some n := by
  have hlist : (toString n).toList = Nat.toDigits 10 n := Nat.toList_repr
  have hvalue : ofDigits (Nat.toDigits 10 n) = n := Nat.ofDigitChars_ten_toDigits
  have hzero : (Nat.toDigits 10 n).head? ≠ some '0' ∨ (Nat.toDigits 10 n).length = 1 := by
    by_cases h : n = 0
    · subst h
      exact .inr rfl
    · exact .inl (toDigits_head h)
  have hdigits : (Nat.toDigits 10 n).all isDigit = true :=
    List.all_eq_true.2 fun c hc => Nat.isDigit_of_mem_toDigits (by decide) (by decide) hc
  rw [tableKey?, hlist, hvalue]
  exact if_pos ⟨Nat.toDigits_ne_nil, hdigits, hzero, hn⟩

theorem lt_of_tableKey? {s : String} {n : Nat} (h : tableKey? s = some n) : n < UInt64.size := by
  simp only [tableKey?] at h
  split at h
  · rename_i hs
    cases h
    exact hs.2.2.2
  · cases h

/-! ## Lists and maps -/

theorem mapM_map_of_forall {f : β → Option γ} {g : α → β} {h : α → γ} {xs : List α}
    (hf : ∀ x ∈ xs, f (g x) = some (h x)) : (xs.map g).mapM f = some (xs.map h) := by
  induction xs with
  | nil => rfl
  | cons x xs ih =>
    obtain ⟨hx, hxs⟩ := List.forall_mem_cons.1 hf
    rw [List.map_cons, List.mapM_cons, hx, ih hxs]
    rfl

theorem exists_of_mem_of_mapM {f : α → Option β} {xs : List α} {ys : List β} {y : β}
    (h : xs.mapM f = some ys) (hy : y ∈ ys) : ∃ x ∈ xs, f x = some y := by
  induction xs generalizing ys with
  | nil =>
    cases h
    exact absurd hy List.not_mem_nil
  | cons x xs ih =>
    rw [List.mapM_cons] at h
    obtain ⟨y', hx, h⟩ := Option.bind_eq_some_iff.1 h
    obtain ⟨ys', hxs, h⟩ := Option.bind_eq_some_iff.1 h
    cases h
    rcases List.mem_cons.1 hy with rfl | hy
    · exact ⟨x, List.mem_cons_self, hx⟩
    · obtain ⟨x', hmem, hx'⟩ := ih hxs hy
      exact ⟨x', List.mem_cons_of_mem _ hmem, hx'⟩

theorem asMembers?_map {f : Json → Option β} {g : α → Json} {h : α → β} {es : List (String × α)}
    (hf : ∀ e ∈ es, f (g e.2) = some (h e.2)) :
    asMembers? f (object false (es.map fun e => (e.1, g e.2)))
      = some (es.map fun e => (e.1, h e.2)) := by
  refine mapM_map_of_forall fun e he => ?_
  rw [hf e he]
  rfl

theorem asTables?_map {f : Json → Option β} {g : α → Json} {h : α → β} {es : List (Nat × α)}
    (hkey : ∀ e ∈ es, e.1 < UInt64.size) (hf : ∀ e ∈ es, f (g e.2) = some (h e.2)) :
    asTables? f (object false (es.map fun e => (toString e.1, g e.2)))
      = some (es.map fun e => (e.1, h e.2)) := by
  refine mapM_map_of_forall fun e he => ?_
  rw [tableKey?_toString (hkey e he), hf e he]
  rfl

/-! ## Numbers of JSON -/

/-- Every number in a tree is one that JSON has: an integer of 64 bits, with a sign or without, or
a finite float. -/
inductive InRange : Json → Prop
  | null : InRange null
  | bool (b : Bool) : InRange (bool b)
  | int {n : Int} (h : -0x8000000000000000 ≤ n ∧ n < UInt64.size) : InRange (int n)
  | float {x : Float} (h : (Binary.ofFloat x).isFinite = true) : InRange (float x)
  | text (s : String) : InRange (text s)
  | array {items : List Json} (h : ∀ j ∈ items, InRange j) : InRange (array items)
  | object {escaped : Bool} {members : List (String × Json)} (h : ∀ m ∈ members, InRange m.2) :
      InRange (object escaped members)
  | unreadable : InRange unreadable

variable {j x : Json}

@[simp] theorem inRange_int_iff {n : Int} :
    InRange (int n) ↔ -0x8000000000000000 ≤ n ∧ n < UInt64.size :=
  ⟨fun (.int h) => h, .int⟩

@[simp] theorem inRange_array_iff {items : List Json} :
    InRange (array items) ↔ ∀ j ∈ items, InRange j :=
  ⟨fun (.array h) => h, .array⟩

@[simp] theorem inRange_object_iff {escaped : Bool} {members : List (String × Json)} :
    InRange (object escaped members) ↔ ∀ m ∈ members, InRange m.2 :=
  ⟨fun (.object h) => h, .object⟩

theorem mem_of_member? {name : String} {members : List (String × Json)}
    (h : member? name members = some (some x)) : (name, x) ∈ members := by
  have hfilter (m : String × Json) (hm : m ∈ members.filter fun m => m.1 = name) :
      m ∈ members ∧ m.1 = name := by
    simpa using hm
  rw [member?] at h
  split at h
  · cases h
  · rename_i m hm
    cases h
    obtain ⟨hmem, rfl⟩ := hfilter m (hm ▸ List.mem_singleton.2 rfl)
    exact hmem
  · cases h

theorem inRange_of_record? {names : List String} {fields : List (Option Json)} (hj : InRange j)
    (h : record? names j = some fields) (hx : some x ∈ fields) : InRange x := by
  cases j with
  | object escaped members =>
    obtain ⟨name, -, hname⟩ := exists_of_mem_of_mapM h hx
    exact inRange_object_iff.1 hj _ (mem_of_member? hname)
  | array items =>
    simp only [record?] at h
    split at h
    · cases h
      rcases List.mem_append.1 hx with hx | hx
      · obtain ⟨item, hitem, hsame⟩ := List.mem_map.1 hx
        cases hsame
        exact inRange_array_iff.1 hj _ hitem
      · cases List.eq_of_mem_replicate hx
    · cases h
  | _ => cases h

/-- A field that must be there is read from a part of the record. -/
theorem exists_of_required? {names : List String} {fields : List (Option Json)} {o : Option Json}
    {f : Json → Option β} {y : β} (hj : InRange j) (hfields : record? names j = some fields)
    (ho : o ∈ fields) (h : required? f o = some y) : ∃ x, InRange x ∧ f x = some y := by
  cases o with
  | none => cases h
  | some x => exact ⟨x, inRange_of_record? hj hfields ho, h⟩

theorem inRange_of_variant? {tag : String} (hj : InRange j)
    (h : variant? j = some (tag, some x)) : InRange x := by
  unfold variant? at h
  split at h
  · cases h
  · cases h
    exact inRange_object_iff.1 hj _ List.mem_cons_self
  · cases h

theorem exists_of_mem_of_asList? {f : Json → Option β} {ys : List β} {y : β} (hj : InRange j)
    (h : asList? f j = some ys) (hy : y ∈ ys) : ∃ x, InRange x ∧ f x = some y := by
  obtain ⟨items, hitems, h⟩ := Option.bind_eq_some_iff.1 h
  obtain ⟨x, hx, hf⟩ := exists_of_mem_of_mapM h hy
  cases j with
  | array items' =>
    cases hitems
    exact ⟨x, inRange_array_iff.1 hj x hx, hf⟩
  | _ => cases hitems

theorem exists_of_mem_of_asTables? {f : Json → Option β} {es : List (Nat × β)} {e : Nat × β}
    (hj : InRange j) (h : asTables? f j = some es) (he : e ∈ es) :
    e.1 < UInt64.size ∧ ∃ x, InRange x ∧ f x = some e.2 := by
  unfold asTables? at h
  split at h
  · obtain ⟨m, hm, h⟩ := exists_of_mem_of_mapM h he
    obtain ⟨table, htable, h⟩ := Option.bind_eq_some_iff.1 h
    obtain ⟨y, hy, h⟩ := Option.bind_eq_some_iff.1 h
    cases h
    exact ⟨lt_of_tableKey? htable, m.2, inRange_object_iff.1 hj m hm, hy⟩
  · cases h

end QueryCompiler.Json
