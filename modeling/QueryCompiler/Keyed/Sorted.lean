/-!
# Maps in key order

A `Sorted κ α` holds one value for each of finitely many keys and lists them by ascending key.
Main statements: `get?_insert`, `get?_erase` (what each operation does to the look-up) and
`ext_get?` (the look-up determines the map).
-/

namespace QueryCompiler

open Std

/-- One value for each of finitely many keys, listed by ascending key. -/
structure Sorted (κ : Type) (α : Type u) [Ord κ] where
  entries : List (κ × α)
  ascending : entries.Pairwise fun e e' => compare e.1 e'.1 = .lt
deriving DecidableEq

namespace Sorted

variable {κ : Type} {α : Type u} [Ord κ]

def empty : Sorted κ α := ⟨[], .nil⟩

instance : EmptyCollection (Sorted κ α) := ⟨empty⟩

instance : Inhabited (Sorted κ α) := ⟨empty⟩

def keys (s : Sorted κ α) : List κ := s.entries.map (·.1)

def size (s : Sorted κ α) : Nat := s.entries.length

def isEmpty (s : Sorted κ α) : Bool := s.entries.isEmpty

/-- Every value through a function. -/
def map {β : Type u} (f : α → β) (s : Sorted κ α) : Sorted κ β :=
  ⟨s.entries.map fun e => (e.1, f e.2), List.pairwise_map.2 s.ascending⟩

theorem eq_of_entries {s s' : Sorted κ α} (h : s.entries = s'.entries) : s = s' := by
  cases s
  cases s'
  cases h
  rfl

theorem map_eq_self {f : α → α} {s : Sorted κ α} (h : ∀ e ∈ s.entries, f e.2 = e.2) :
    s.map f = s := by
  have hentry : ∀ e ∈ s.entries, (e.1, f e.2) = id e := fun e he => Prod.ext rfl (h e he)
  exact eq_of_entries ((List.map_congr_left hentry).trans (List.map_id _))

/-- Writes a value at its place in a list by ascending key. -/
def insertEntry (k : κ) (v : α) : List (κ × α) → List (κ × α)
  | [] => [(k, v)]
  | e :: es =>
    match compare k e.1 with
    | .lt => (k, v) :: e :: es
    | .eq => (k, v) :: es
    | .gt => e :: insertEntry k v es

theorem mem_insertEntry {k : κ} {v : α} {es : List (κ × α)} {e : κ × α}
    (h : e ∈ insertEntry k v es) : e = (k, v) ∨ e ∈ es := by
  induction es with
  | nil => simpa [insertEntry] using h
  | cons e' es ih =>
    simp only [insertEntry] at h
    split at h <;> simp only [List.mem_cons] at h ⊢ <;> grind

variable [DecidableEq κ]

/-- The value at a key. -/
def get? (s : Sorted κ α) (k : κ) : Option α := s.entries.lookup k

def contains (s : Sorted κ α) (k : κ) : Bool := (s.get? k).isSome

/-- Takes a key out. -/
def erase (s : Sorted κ α) (k : κ) : Sorted κ α :=
  ⟨s.entries.filter fun e => e.1 ≠ k, s.ascending.filter _⟩

@[simp] theorem get?_empty (k : κ) : (∅ : Sorted κ α).get? k = none := rfl

theorem get?_erase (s : Sorted κ α) (k k' : κ) :
    (s.erase k).get? k' = if k' = k then none else s.get? k' := by
  simp only [get?, erase]
  induction s.entries with
  | nil => simp
  | cons e es ih =>
    rw [List.filter_cons]
    grind

theorem lookup_eq_some_iff [TransOrd κ] [LawfulEqOrd κ] {k : κ} {v : α} {es : List (κ × α)}
    (h : es.Pairwise fun e e' => compare e.1 e'.1 = .lt) :
    es.lookup k = some v ↔ (k, v) ∈ es := by
  induction es with
  | nil => simp
  | cons e es ih =>
    obtain ⟨k', v'⟩ := e
    obtain ⟨he, hes⟩ := List.pairwise_cons.1 h
    rw [List.lookup_cons]
    by_cases hk : k = k'
    · subst hk
      have : ∀ w, (k, w) ∉ es := fun w hw => by simpa using he _ hw
      simp [this, eq_comm]
    · have : (k == k') = false := by simpa using hk
      simp [this, hk, ih hes]

theorem get?_eq_some_iff [TransOrd κ] [LawfulEqOrd κ] {s : Sorted κ α} {k : κ} {v : α} :
    s.get? k = some v ↔ (k, v) ∈ s.entries := lookup_eq_some_iff s.ascending

theorem mem_keys_iff [TransOrd κ] [LawfulEqOrd κ] {s : Sorted κ α} {k : κ} :
    k ∈ s.keys ↔ s.contains k = true := by
  simp only [keys, contains, List.mem_map, Option.isSome_iff_exists, get?_eq_some_iff]
  exact ⟨fun ⟨e, he, hk⟩ => ⟨e.2, hk ▸ he⟩, fun ⟨v, hv⟩ => ⟨(k, v), hv, rfl⟩⟩

theorem get?_map {β : Type u} {f : α → β} {s : Sorted κ α} {k : κ} :
    (s.map f).get? k = (s.get? k).map f := by
  obtain ⟨es, h⟩ := s
  show (es.map fun e => (e.1, f e.2)).lookup k = (es.lookup k).map f
  clear h
  induction es with
  | nil => rfl
  | cons e es ih =>
    rw [List.map_cons, List.lookup_cons, List.lookup_cons, ih]
    cases k == e.1 <;> rfl

theorem contains_map {β : Type u} {f : α → β} {s : Sorted κ α} {k : κ} :
    (s.map f).contains k = s.contains k := by
  unfold contains
  rw [get?_map, Option.isSome_map]

/-! ## Writing -/

variable [TransOrd κ] [LawfulEqOrd κ]

omit [DecidableEq κ] [LawfulEqOrd κ] in
/-- A value comes last if its key does. -/
theorem insertEntry_of_forall_lt {k : κ} {v : α} {es : List (κ × α)}
    (h : ∀ e ∈ es, compare e.1 k = .lt) : insertEntry k v es = es ++ [(k, v)] := by
  induction es with
  | nil => rfl
  | cons e es ih =>
    obtain ⟨he, hes⟩ := List.forall_mem_cons.1 h
    rw [insertEntry, OrientedCmp.gt_iff_lt.2 he]
    show e :: insertEntry k v es = _
    rw [ih hes]
    rfl

omit [DecidableEq κ] in
theorem insertEntry_ascending {k : κ} {v : α} {es : List (κ × α)}
    (h : es.Pairwise fun e e' => compare e.1 e'.1 = .lt) :
    (insertEntry k v es).Pairwise fun e e' => compare e.1 e'.1 = .lt := by
  induction es with
  | nil => simp [insertEntry]
  | cons e es ih =>
    obtain ⟨he, hes⟩ := List.pairwise_cons.1 h
    simp only [insertEntry]
    split
    · rename_i hk
      refine List.pairwise_cons.2 ⟨fun e' he' => ?_, h⟩
      rcases List.mem_cons.1 he' with rfl | he'
      · exact hk
      · exact TransCmp.lt_trans hk (he e' he')
    · rename_i hk
      have hk := LawfulEqCmp.eq_of_compare hk
      subst hk
      exact List.pairwise_cons.2 ⟨he, hes⟩
    · rename_i hk
      refine List.pairwise_cons.2 ⟨fun e' he' => ?_, ih hes⟩
      rcases mem_insertEntry he' with rfl | he'
      · exact OrientedCmp.gt_iff_lt.1 hk
      · exact he e' he'

/-- Writes a value at a key. -/
def insert (s : Sorted κ α) (k : κ) (v : α) : Sorted κ α :=
  ⟨insertEntry k v s.entries, insertEntry_ascending s.ascending⟩

/-- The map of a list; the last value of a key counts. -/
def ofList (es : List (κ × α)) : Sorted κ α := es.foldl (fun s e => s.insert e.1 e.2) ∅

omit [DecidableEq κ] in
theorem entries_foldl_insert {t : Sorted κ α} {es : List (κ × α)}
    (h : (t.entries ++ es).Pairwise fun e e' => compare e.1 e'.1 = .lt) :
    (es.foldl (fun s e => s.insert e.1 e.2) t).entries = t.entries ++ es := by
  induction es generalizing t with
  | nil => exact (List.append_nil _).symm
  | cons e es ih =>
    have hlast : (t.insert e.1 e.2).entries = t.entries ++ [e] :=
      insertEntry_of_forall_lt fun e' he' =>
        (List.pairwise_append.1 h).2.2 e' he' e List.mem_cons_self
    rw [List.append_cons, ← hlast] at h
    rw [List.foldl_cons, ih h, hlast, ← List.append_cons]

omit [DecidableEq κ] in
/-- A map is the map of its own list. -/
theorem ofList_entries (s : Sorted κ α) : ofList s.entries = s :=
  eq_of_entries (entries_foldl_insert s.ascending)

omit [DecidableEq κ] in
theorem mem_entries_foldl_insert {t : Sorted κ α} {es : List (κ × α)} {e : κ × α}
    (h : e ∈ (es.foldl (fun s e => s.insert e.1 e.2) t).entries) : e ∈ t.entries ∨ e ∈ es := by
  induction es generalizing t with
  | nil => exact .inl h
  | cons e' es ih =>
    rcases ih h with ht | hes
    · rcases mem_insertEntry ht with rfl | ht
      · exact .inr List.mem_cons_self
      · exact .inl ht
    · exact .inr (List.mem_cons_of_mem _ hes)

omit [DecidableEq κ] in
theorem mem_entries_ofList {es : List (κ × α)} {e : κ × α} (h : e ∈ (ofList es).entries) :
    e ∈ es := (mem_entries_foldl_insert h).resolve_left List.not_mem_nil

/-- Every value through a step that may fail, by ascending key. -/
def traverse {m : Type u → Type u} [Monad m] {β : Type u} (f : κ → α → m β) (s : Sorted κ α) :
    m (Sorted κ β) :=
  s.entries.foldlM (fun t e => return t.insert e.1 (← f e.1 e.2)) ∅

theorem get?_insert (s : Sorted κ α) (k k' : κ) (v : α) :
    (s.insert k v).get? k' = if k' = k then some v else s.get? k' := by
  simp only [get?, insert]
  induction s.entries with
  | nil => simp only [insertEntry, List.lookup_cons]; grind
  | cons e es ih =>
    obtain ⟨k₁, v₁⟩ := e
    simp only [insertEntry]
    split <;> rename_i hk
    · simp only [List.lookup_cons]
      grind
    · have hk := LawfulEqCmp.eq_of_compare hk
      subst hk
      simp only [List.lookup_cons]
      grind
    · have : k ≠ k₁ := by
        rintro rfl
        simp at hk
      simp only [List.lookup_cons, ih]
      grind

/-- The look-up after some writing: the list comes first, then what was there. -/
theorem get?_foldl_insert {t : Sorted κ α} {es : List (κ × α)} {k : κ}
    (h : (es.map Prod.fst).Nodup) :
    (es.foldl (fun s e => s.insert e.1 e.2) t).get? k = (es.lookup k).or (t.get? k) := by
  induction es generalizing t with
  | nil => rfl
  | cons e es ih =>
    obtain ⟨he, hes⟩ := List.nodup_cons.1 h
    rw [List.foldl_cons, ih hes, get?_insert, List.lookup_cons]
    by_cases hk : k = e.1
    · have hnone : es.lookup k = none := by
        rw [List.lookup_eq_none_iff]
        intro e' he'
        rw [hk, bne_iff_ne]
        rintro heq
        exact he (heq ▸ List.mem_map_of_mem he')
      rw [hnone, if_pos hk, beq_iff_eq.2 hk]
      rfl
    · rw [if_neg hk, beq_eq_false_iff_ne.2 hk]

/-- A list with one value for each key is its own map. -/
theorem get?_ofList {es : List (κ × α)} {k : κ} (h : (es.map Prod.fst).Nodup) :
    (ofList es).get? k = es.lookup k := by
  unfold ofList
  rw [get?_foldl_insert h, get?_empty, Option.or_none]

omit [DecidableEq κ] in
theorem eq_of_same_members {es es' : List (κ × α)}
    (h : es.Pairwise fun e e' => compare e.1 e'.1 = .lt)
    (h' : es'.Pairwise fun e e' => compare e.1 e'.1 = .lt) (hm : ∀ e, e ∈ es ↔ e ∈ es') :
    es = es' := by
  have hirr (a : κ) : compare a a ≠ .lt := by simp
  have hasym (a b : κ) (hab : compare a b = .lt) : compare b a ≠ .lt := fun hba =>
    hirr a (TransCmp.lt_trans hab hba)
  induction es generalizing es' with
  | nil => exact (List.eq_nil_iff_forall_not_mem.2 fun e he => by simpa using (hm e).2 he).symm
  | cons e es ih =>
    cases es' with
    | nil => exact absurd ((hm e).1 List.mem_cons_self) (by simp)
    | cons e' es' =>
      obtain ⟨he, hes⟩ := List.pairwise_cons.1 h
      obtain ⟨he', hes'⟩ := List.pairwise_cons.1 h'
      have heq : e = e' := by
        rcases List.mem_cons.1 ((hm e).1 List.mem_cons_self) with h1 | h1
        · exact h1
        · rcases List.mem_cons.1 ((hm e').2 List.mem_cons_self) with h2 | h2
          · exact h2.symm
          · exact absurd (he' _ h1) (hasym _ _ (he _ h2))
      subst heq
      congr 1
      refine ih hes hes' fun x => ⟨fun hx => ?_, fun hx => ?_⟩
      · rcases List.mem_cons.1 ((hm x).1 (.tail _ hx)) with rfl | hx'
        · exact absurd (he _ hx) (hirr _)
        · exact hx'
      · rcases List.mem_cons.1 ((hm x).2 (.tail _ hx)) with rfl | hx'
        · exact absurd (he' _ hx) (hirr _)
        · exact hx'

/-- Two maps with the same look-up are the same. -/
theorem ext_get? {s s' : Sorted κ α} (h : ∀ k, s.get? k = s'.get? k) : s = s' :=
  eq_of_entries <| eq_of_same_members s.ascending s'.ascending fun (k, v) => by
    rw [← get?_eq_some_iff, ← get?_eq_some_iff, h]

end Sorted

end QueryCompiler
