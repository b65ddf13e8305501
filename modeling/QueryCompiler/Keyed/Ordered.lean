/-!
# Maps in order of first insertion

An `Ordered κ α` holds one value for each of finitely many keys and lists them in the order in
which they first came. Main statements: `get?_insert`, `keys_insert` (a known key keeps its place,
a new one comes last) and `ext_get?` (keys and look-up determine the map).
-/

namespace QueryCompiler

/-- One value for each of finitely many keys, listed in order of first insertion. -/
structure Ordered (κ : Type) (α : Type u) where
  entries : List (κ × α)
  nodup : (entries.map (·.1)).Nodup
deriving DecidableEq

namespace Ordered

variable {κ : Type} {α : Type u}

def empty : Ordered κ α := ⟨[], .nil⟩

instance : EmptyCollection (Ordered κ α) := ⟨empty⟩

instance : Inhabited (Ordered κ α) := ⟨empty⟩

def keys (o : Ordered κ α) : List κ := o.entries.map (·.1)

theorem eq_of_entries {o o' : Ordered κ α} (h : o.entries = o'.entries) : o = o' := by
  cases o
  cases o'
  cases h
  rfl

variable [DecidableEq κ]

def get? (o : Ordered κ α) (k : κ) : Option α := o.entries.lookup k

/-- Changes the value at a key, which comes last if it is new. -/
def updateEntry (k : κ) (f : Option α → α) : List (κ × α) → List (κ × α)
  | [] => [(k, f none)]
  | e :: es => if e.1 = k then (k, f (some e.2)) :: es else e :: updateEntry k f es

theorem keys_updateEntry (k : κ) (f : Option α → α) (es : List (κ × α)) :
    (updateEntry k f es).map (·.1)
      = if k ∈ es.map (·.1) then es.map (·.1) else es.map (·.1) ++ [k] := by
  induction es with
  | nil => rfl
  | cons e es ih =>
    simp only [updateEntry]
    split
    · rename_i h
      simp [h]
    · rename_i h
      have h' : ¬ k = e.1 := fun hk => h hk.symm
      simp only [List.map_cons, ih, List.mem_cons, h', false_or]
      split <;> simp

/-- Changes the value at a key, which comes last if it is new. -/
def update (o : Ordered κ α) (k : κ) (f : Option α → α) : Ordered κ α :=
  ⟨updateEntry k f o.entries, by
    rw [keys_updateEntry]
    split
    · exact o.nodup
    · rename_i h
      exact List.nodup_append.2 ⟨o.nodup, by simp, by
        intro a ha b hb
        simp only [List.mem_singleton] at hb
        subst hb
        rintro rfl
        exact h ha⟩⟩

/-- Writes a value at a key, which comes last if it is new. -/
def insert (o : Ordered κ α) (k : κ) (v : α) : Ordered κ α := o.update k fun _ => v

/-- The map of a list; the last value of a key counts, at its first place. -/
def ofList (es : List (κ × α)) : Ordered κ α := es.foldl (fun o e => o.insert e.1 e.2) ∅

theorem updateEntry_of_not_mem {k : κ} {f : Option α → α} {es : List (κ × α)}
    (h : k ∉ es.map (·.1)) : updateEntry k f es = es ++ [(k, f none)] := by
  induction es with
  | nil => rfl
  | cons e es ih =>
    obtain ⟨hk, hes⟩ := not_or.1 (mt List.mem_cons.2 h)
    rw [updateEntry, if_neg (Ne.symm hk), ih hes]
    rfl

theorem mem_updateEntry {k : κ} {f : Option α → α} {es : List (κ × α)} {e : κ × α}
    (h : e ∈ updateEntry k f es) : (e.1 = k ∧ ∃ old, e.2 = f old) ∨ e ∈ es := by
  induction es with
  | nil =>
    obtain rfl := List.mem_singleton.1 h
    exact .inl ⟨rfl, none, rfl⟩
  | cons e' es ih =>
    rw [updateEntry] at h
    split at h
    · rcases List.mem_cons.1 h with rfl | h
      · exact .inl ⟨rfl, _, rfl⟩
      · exact .inr (List.mem_cons_of_mem _ h)
    · rcases List.mem_cons.1 h with rfl | h
      · exact .inr List.mem_cons_self
      · exact (ih h).imp_right (List.mem_cons_of_mem _)

theorem entries_foldl_insert {o : Ordered κ α} {es : List (κ × α)}
    (h : ((o.entries ++ es).map (·.1)).Nodup) :
    (es.foldl (fun o e => o.insert e.1 e.2) o).entries = o.entries ++ es := by
  induction es generalizing o with
  | nil => exact (List.append_nil _).symm
  | cons e es ih =>
    have hlast : (o.insert e.1 e.2).entries = o.entries ++ [e] := by
      refine updateEntry_of_not_mem fun hk => ?_
      rw [List.map_append, List.nodup_append] at h
      exact h.2.2 _ hk _ (List.mem_map_of_mem List.mem_cons_self) rfl
    rw [List.append_cons, ← hlast] at h
    rw [List.foldl_cons, ih h, hlast, ← List.append_cons]

/-- A map is the map of its own list. -/
theorem ofList_entries (o : Ordered κ α) : ofList o.entries = o :=
  eq_of_entries (entries_foldl_insert o.nodup)

theorem mem_entries_foldl_insert {o : Ordered κ α} {es : List (κ × α)} {e : κ × α}
    (h : e ∈ (es.foldl (fun o e => o.insert e.1 e.2) o).entries) : e ∈ o.entries ∨ e ∈ es := by
  induction es generalizing o with
  | nil => exact .inl h
  | cons e' es ih =>
    rcases ih h with ho | hes
    · rcases mem_updateEntry ho with ⟨hk, _, hv⟩ | ho
      · obtain rfl : e = e' := Prod.ext hk hv
        exact .inr List.mem_cons_self
      · exact .inl ho
    · exact .inr (List.mem_cons_of_mem _ hes)

theorem mem_entries_ofList {es : List (κ × α)} {e : κ × α} (h : e ∈ (ofList es).entries) :
    e ∈ es := (mem_entries_foldl_insert h).resolve_left List.not_mem_nil

theorem keys_update (o : Ordered κ α) (k : κ) (f : Option α → α) :
    (o.update k f).keys = if k ∈ o.keys then o.keys else o.keys ++ [k] :=
  keys_updateEntry ..

theorem keys_insert (o : Ordered κ α) (k : κ) (v : α) :
    (o.insert k v).keys = if k ∈ o.keys then o.keys else o.keys ++ [k] := keys_update ..

@[simp] theorem get?_empty (k : κ) : (∅ : Ordered κ α).get? k = none := rfl

theorem get?_eq_none_iff {o : Ordered κ α} {k : κ} : o.get? k = none ↔ k ∉ o.keys := by
  simp only [get?, keys, List.lookup_eq_none_iff, List.mem_map, not_exists, not_and, bne_iff_ne]
  exact ⟨fun h e he hk => h e he hk.symm, fun h e he hk => h e he hk.symm⟩

theorem get?_update (o : Ordered κ α) (k k' : κ) (f : Option α → α) :
    (o.update k f).get? k' = if k' = k then some (f (o.get? k)) else o.get? k' := by
  simp only [get?, update]
  induction o.entries with
  | nil =>
    simp only [updateEntry, List.lookup_cons, List.lookup_nil]
    grind
  | cons e es ih =>
    simp only [updateEntry]
    grind

theorem get?_insert (o : Ordered κ α) (k k' : κ) (v : α) :
    (o.insert k v).get? k' = if k' = k then some v else o.get? k' := get?_update ..

theorem eq_of_same_lookup {es es' : List (κ × α)} (h : (es.map (·.1)).Nodup)
    (hkeys : es.map (·.1) = es'.map (·.1)) (hget : ∀ k ∈ es.map (·.1), es.lookup k = es'.lookup k) :
    es = es' := by
  induction es generalizing es' with
  | nil => exact (List.map_eq_nil_iff.1 hkeys.symm).symm
  | cons e es ih =>
    cases es' with
    | nil => cases hkeys
    | cons e' es' =>
      obtain ⟨k, v⟩ := e
      obtain ⟨k', v'⟩ := e'
      rw [List.map_cons, List.map_cons, List.cons.injEq] at hkeys
      obtain ⟨rfl, hkeys⟩ := hkeys
      obtain ⟨hk, hes⟩ := List.nodup_cons.1 h
      have hv : some v = some v' := by simpa using hget k List.mem_cons_self
      obtain rfl := Option.some.inj hv
      congr 1
      refine ih hes hkeys fun k' hk' => ?_
      have hne : (k' == k) = false := by
        rw [beq_eq_false_iff_ne]
        rintro rfl
        exact hk hk'
      simpa [List.lookup_cons, hne] using hget k' (List.mem_cons_of_mem _ hk')

/-- Two maps with the same keys in the same order and the same look-up are the same. -/
theorem ext_get? {o o' : Ordered κ α} (hkeys : o.keys = o'.keys)
    (hget : ∀ k ∈ o.keys, o.get? k = o'.get? k) : o = o' :=
  eq_of_entries (eq_of_same_lookup o.nodup hkeys hget)

end Ordered

end QueryCompiler
