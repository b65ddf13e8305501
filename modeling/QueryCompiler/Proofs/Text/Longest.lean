/-!
# The longest text of a form

Some texts have a form, and a scanner takes one of them off the front of another text. It takes the
longest one if what it takes has the form, and if of two texts with the form that stand in front it
never settles for the shorter: whatever has the form, and whatever follows it, the scanner takes at
least that much.

A run of characters ends where what stands behind it begins with another character: then that is
left over as it is (`takeWhile_before` and `dropWhile_before`).

Main statements: `TakesLongest.eq_some_iff` and `TakesLongest.eq_none_iff`.
-/

namespace QueryCompiler.Text

/-- `p` is the longest text of a form that `cs` begins with. -/
structure IsLongest (Form : List Char → Prop) (cs p : List Char) : Prop where
  form : Form p
  front : p <+: cs
  longest : ∀ q, Form q → q <+: cs → q.length ≤ p.length

/-- What a scanner takes has the form and stands in front, and it takes no less than any text of
the form that stands there. -/
structure TakesLongest (Form : List Char → Prop) (take? : List Char → Option (List Char)) :
    Prop where
  form {cs p : List Char} (h : take? cs = some p) : Form p
  front {cs p : List Char} (h : take? cs = some p) : p <+: cs
  reaches {p : List Char} (h : Form p) (rest : List Char) :
    ∃ q, take? (p ++ rest) = some q ∧ p <+: q

variable {Form : List Char → Prop} {take? : List Char → Option (List Char)} {cs p q : List Char}

theorem IsLongest.unique (hp : IsLongest Form cs p) (hq : IsLongest Form cs q) : p = q := by
  have hlength : p.length = q.length :=
    Nat.le_antisymm (hq.longest p hp.form hp.front) (hp.longest q hq.form hq.front)
  have hle : p <+: q :=
    List.prefix_of_prefix_length_le hp.front hq.front (Nat.le_of_eq hlength)
  exact hle.eq_of_length hlength

namespace TakesLongest

theorem exists_eq_some (ht : TakesLongest Form take?) (hp : Form p) (hfront : p <+: cs) :
    ∃ q, take? cs = some q ∧ p <+: q := by
  obtain ⟨rest, rfl⟩ := hfront
  exact ht.reaches hp rest

theorem isLongest (ht : TakesLongest Form take?) (h : take? cs = some p) :
    IsLongest Form cs p := by
  refine ⟨ht.form h, ht.front h, fun q hq hfront => ?_⟩
  obtain ⟨p', hp', hlonger⟩ := ht.exists_eq_some hq hfront
  rw [h] at hp'
  cases hp'
  exact hlonger.length_le

theorem eq_some_iff (ht : TakesLongest Form take?) :
    take? cs = some p ↔ IsLongest Form cs p := by
  refine ⟨ht.isLongest, fun h => ?_⟩
  obtain ⟨q, hq, -⟩ := ht.exists_eq_some h.form h.front
  rw [hq, h.unique (ht.isLongest hq)]

/-- A scanner takes nothing exactly where no text of the form stands in front. -/
theorem eq_none_iff (ht : TakesLongest Form take?) :
    take? cs = none ↔ ∀ p, Form p → ¬ p <+: cs := by
  constructor
  · intro h p hp hfront
    obtain ⟨q, hq, -⟩ := ht.exists_eq_some hp hfront
    rw [h] at hq
    cases hq
  · intro h
    refine Option.eq_none_iff_forall_ne_some.2 fun p hp => ?_
    exact h p (ht.form hp) (ht.front hp)

end TakesLongest

/-! ## Runs -/

variable {p : Char → Bool} {rest : List Char}

theorem takeWhile_before (h : ∀ c ∈ rest.head?, p c = false) (cs : List Char) :
    (cs ++ rest).takeWhile p = cs.takeWhile p := by
  induction cs with
  | nil =>
    cases rest with
    | nil => rfl
    | cons c rest => exact List.takeWhile_cons_of_neg (Bool.eq_false_iff.1 (h c rfl))
  | cons c cs ih => rw [List.cons_append, List.takeWhile_cons, List.takeWhile_cons, ih]

theorem dropWhile_before (h : ∀ c ∈ rest.head?, p c = false) (cs : List Char) :
    (cs ++ rest).dropWhile p = cs.dropWhile p ++ rest := by
  induction cs with
  | nil =>
    cases rest with
    | nil => rfl
    | cons c rest => exact List.dropWhile_cons_of_neg (Bool.eq_false_iff.1 (h c rfl))
  | cons c cs ih =>
    rw [List.cons_append, List.dropWhile_cons, List.dropWhile_cons, ih]
    split <;> rfl

end QueryCompiler.Text
