import Mathlib.Data.List.Forall2

/-!
# Steps that may fail

How a sequence of steps in `Except` ends. Main statements: `bind_eq_ok_iff` (a sequence succeeds
exactly if each of its steps does), `forM_eq_ok_iff` and `mapM_eq_ok_iff` (what is done to a list
succeeds exactly if it does for every element).

`check` forgets what a step gives and keeps how it ends. Main statement: `check_bind_bind_pure` (to
put results together is to check one step after the other, as `inOrder` does for a whole list).

`FailsOnly` says for what reasons a step may fail. Main statement: `FailsOnly.bind`.
-/

namespace QueryCompiler.Outcome

variable {ε α β γ : Type}

@[simp] theorem ok_bind (a : α) (f : α → Except ε β) : (Except.ok a >>= f) = f a := rfl

@[simp] theorem error_bind (e : ε) (f : α → Except ε β) :
    ((Except.error e : Except ε α) >>= f) = .error e := rfl

@[simp] theorem pure_eq_ok (a : α) : (pure a : Except ε α) = .ok a := rfl

theorem bind_eq_ok_iff {x : Except ε α} {f : α → Except ε β} {b : β} :
    (x >>= f) = .ok b ↔ ∃ a, x = .ok a ∧ f a = .ok b := by
  cases x with
  | error e => simp
  | ok a => simp

/-- A check in front of a step gives nothing but its success. -/
theorem check_bind_eq_ok_iff {x : Except ε Unit} {f : Unit → Except ε β} {b : β} :
    (x >>= f) = .ok b ↔ x = .ok () ∧ f () = .ok b := by
  rw [bind_eq_ok_iff]
  exact ⟨fun ⟨⟨⟩, hx, hf⟩ => ⟨hx, hf⟩, fun ⟨hx, hf⟩ => ⟨(), hx, hf⟩⟩

/-- A step whose result is put into a form. -/
theorem bind_pure_eq_ok_iff {x : Except ε α} {f : α → β} {b : β} :
    (do return f (← x)) = .ok b ↔ ∃ a, x = .ok a ∧ b = f a := by
  rw [bind_eq_ok_iff]
  simp only [pure_eq_ok, Except.ok.injEq, @eq_comm β b]

/-- Two steps whose results are put together. -/
theorem bind_bind_pure_eq_ok_iff {x : Except ε α} {y : Except ε β} {f : α → β → γ} {c : γ} :
    (do return f (← x) (← y)) = .ok c ↔ ∃ a b, x = .ok a ∧ y = .ok b ∧ c = f a b := by
  rw [bind_eq_ok_iff]
  constructor
  · rintro ⟨a, ha, h⟩
    obtain ⟨b, hb, rfl⟩ := bind_pure_eq_ok_iff.1 h
    exact ⟨a, b, ha, hb, rfl⟩
  · rintro ⟨a, b, ha, hb, rfl⟩
    exact ⟨a, ha, bind_pure_eq_ok_iff.2 ⟨b, hb, rfl⟩⟩

theorem exists_bind_pure_iff {x : Except ε α} {f : α → β} :
    (∃ b, (do return f (← x)) = .ok b) ↔ ∃ a, x = .ok a := by
  cases x <;> simp

theorem exists_bind_bind_pure_iff {x : Except ε α} {y : Except ε β} {f : α → β → γ} :
    (∃ c, (do return f (← x) (← y)) = .ok c) ↔ (∃ a, x = .ok a) ∧ ∃ b, y = .ok b := by
  cases x with
  | error e => simp
  | ok a => cases y <;> simp

theorem map_eq_ok_iff {x : Except ε α} {f : α → β} {b : β} :
    f <$> x = .ok b ↔ ∃ a, x = .ok a ∧ f a = b := by
  cases x with
  | error e => simp [Functor.map, Except.map]
  | ok a => simp [Functor.map, Except.map]

theorem exists_map_iff {x : Except ε α} {f : α → β} :
    (∃ b, f <$> x = .ok b) ↔ ∃ a, x = .ok a := by
  simp only [map_eq_ok_iff]
  rw [exists_comm]
  simp only [exists_and_left, exists_eq', and_true]

theorem toOption_eq_some_iff {x : Except ε α} {a : α} : x.toOption = some a ↔ x = .ok a := by
  cases x with
  | error e => simp [Except.toOption]
  | ok a => simp [Except.toOption]

theorem forM_eq_ok_iff {xs : List α} {f : α → Except ε Unit} :
    xs.forM f = .ok () ↔ ∀ x ∈ xs, f x = .ok () := by
  induction xs with
  | nil => simp [List.forM]
  | cons x xs ih =>
    show (f x >>= fun _ => xs.forM f) = .ok () ↔ _
    rw [check_bind_eq_ok_iff, ih, List.forall_mem_cons]

theorem mapM_eq_ok_iff {xs : List α} {f : α → Except ε β} {ys : List β} :
    xs.mapM f = .ok ys ↔ List.Forall₂ (fun x y => f x = .ok y) xs ys := by
  induction xs generalizing ys with
  | nil =>
    rw [List.mapM_nil, List.forall₂_nil_left_iff, pure_eq_ok, Except.ok.injEq, eq_comm]
  | cons x xs ih =>
    rw [List.mapM_cons, bind_bind_pure_eq_ok_iff, List.forall₂_cons_left_iff]
    simp only [ih]

theorem exists_of_mem_of_mapM {xs : List α} {f : α → Except ε β} {ys : List β} {y : β}
    (h : xs.mapM f = .ok ys) (hy : y ∈ ys) : ∃ x ∈ xs, f x = .ok y := by
  have hforall := mapM_eq_ok_iff.1 h
  induction hforall with
  | nil => exact absurd hy List.not_mem_nil
  | cons hx hxs ih =>
    rcases List.mem_cons.1 hy with rfl | hy
    · exact ⟨_, List.mem_cons_self, hx⟩
    · obtain ⟨x, hmem, hf⟩ := ih (mapM_eq_ok_iff.2 hxs) hy
      exact ⟨x, List.mem_cons_of_mem _ hmem, hf⟩

theorem exists_mapM_iff {xs : List α} {f : α → Except ε β} :
    (∃ ys, xs.mapM f = .ok ys) ↔ ∀ x ∈ xs, ∃ y, f x = .ok y := by
  induction xs with
  | nil => simp
  | cons x xs ih =>
    rw [List.forall_mem_cons, ← ih]
    simp only [List.mapM_cons, bind_bind_pure_eq_ok_iff]
    constructor
    · rintro ⟨_, y, ys, hy, hys, -⟩
      exact ⟨⟨y, hy⟩, ys, hys⟩
    · rintro ⟨⟨y, hy⟩, ys, hys⟩
      exact ⟨y :: ys, y, ys, hy, hys, rfl⟩

theorem bind_eq_error_iff {x : Except ε α} {f : α → Except ε β} {e : ε} :
    (x >>= f) = .error e ↔ x = .error e ∨ ∃ a, x = .ok a ∧ f a = .error e := by
  cases x with
  | error e' => simp
  | ok a => simp

theorem mapM_eq_error {xs : List α} {f : α → Except ε β} {e : ε} (h : xs.mapM f = .error e) :
    ∃ x ∈ xs, f x = .error e := by
  induction xs with
  | nil => cases h
  | cons x xs ih =>
    rw [List.mapM_cons] at h
    rcases bind_eq_error_iff.1 h with hx | ⟨y, -, h⟩
    · exact ⟨x, List.mem_cons_self, hx⟩
    · rcases bind_eq_error_iff.1 h with hxs | ⟨ys, -, h⟩
      · obtain ⟨x', hx', hf⟩ := ih hxs
        exact ⟨x', List.mem_cons_of_mem _ hx', hf⟩
      · cases h

/-! ## How a step ends -/

/-- A step without what it gives. -/
def check (x : Except ε α) : Except ε Unit := (fun _ => ()) <$> x

/-- Checks one after the other, up to the first that fails. -/
def inOrder (xs : List (Except ε Unit)) : Except ε Unit := xs.forM id

@[simp] theorem check_ok (a : α) : check (.ok a : Except ε α) = .ok () := rfl

@[simp] theorem check_error (e : ε) : check (.error e : Except ε α) = .error e := rfl

theorem check_eq_ok_iff {x : Except ε α} : check x = .ok () ↔ ∃ a, x = .ok a := by
  cases x <;> simp

theorem check_eq_error_iff {x : Except ε α} {e : ε} : check x = .error e ↔ x = .error e := by
  cases x <;> simp

theorem check_bind_pure (x : Except ε α) (f : α → β) : check (do return f (← x)) = check x := by
  cases x <;> rfl

theorem check_bind_bind_pure (x : Except ε α) (y : Except ε β) (f : α → β → γ) :
    check (do return f (← x) (← y)) = (do check x; check y) := by
  cases x with
  | error e => rfl
  | ok a => cases y <;> rfl

theorem inOrder_cons (x : Except ε Unit) (xs : List (Except ε Unit)) :
    inOrder (x :: xs) = (do x; inOrder xs) := rfl

theorem inOrder_append (xs ys : List (Except ε Unit)) :
    inOrder (xs ++ ys) = (do inOrder xs; inOrder ys) := List.forM_append

theorem inOrder_eq_ok_iff {xs : List (Except ε Unit)} :
    inOrder xs = .ok () ↔ ∀ x ∈ xs, x = .ok () := forM_eq_ok_iff

theorem inOrder_eq_error {xs : List (Except ε Unit)} {e : ε} (h : inOrder xs = .error e) :
    .error e ∈ xs := by
  induction xs with
  | nil => cases h
  | cons x xs ih =>
    rcases bind_eq_error_iff.1 h with hx | ⟨⟨⟩, -, hxs⟩
    · have hx : x = .error e := hx
      rw [hx]
      exact List.mem_cons_self
    · exact List.mem_cons_of_mem _ (ih hxs)

/-! ## How a step may fail -/

/-- A step that gives a result, or fails for a reason of some kind. -/
def FailsOnly (P : ε → Prop) (x : Except ε α) : Prop := ∀ e, x = .error e → P e

namespace FailsOnly

variable {P : ε → Prop}

theorem ok (a : α) : FailsOnly P (.ok a) := nofun

theorem error {e : ε} (h : P e) : FailsOnly P (.error e : Except ε α) := by
  rintro _ ⟨⟩
  exact h

theorem bind {x : Except ε α} {f : α → Except ε β} (hx : FailsOnly P x)
    (hf : ∀ a, x = .ok a → FailsOnly P (f a)) : FailsOnly P (x >>= f) := by
  intro e h
  rcases bind_eq_error_iff.1 h with h | ⟨a, ha, h⟩
  · exact hx e h
  · exact hf a ha e h

theorem map {x : Except ε α} {f : α → β} (hx : FailsOnly P x) : FailsOnly P (f <$> x) := by
  cases x with
  | error e =>
    rintro _ ⟨⟩
    exact hx e rfl
  | ok a => exact .ok _

theorem forM {xs : List α} {f : α → Except ε Unit} (h : ∀ x ∈ xs, FailsOnly P (f x)) :
    FailsOnly P (xs.forM f) := by
  induction xs with
  | nil => exact .ok _
  | cons x xs ih =>
    obtain ⟨hx, hxs⟩ := List.forall_mem_cons.1 h
    exact hx.bind fun _ _ => ih hxs

end FailsOnly

end QueryCompiler.Outcome
