import QueryCompiler.Proofs.Decimal.DecimalPrefix
import QueryCompiler.Proofs.Json.Integers

/-!
# Where numbers end

A number in a text is read up to the first character that belongs to no number: what stands behind
it, a comma or a closing bracket, is left as it is, and so is the number.

1. `wholeDigits?_before`, `fractionDigits?_before` and `exponentInt?_before`: each part of a number
   ends there, as a run of digits does.
2. `number?_before`: so does a number with all its parts.
3. `number?_int`: an integer of 64 bits is read as itself.

Main statements: `number?_before` and `number?_int`.
-/

namespace QueryCompiler.Json

open Decimal Text

variable {cs rest : List Char}

/-- What can stand behind a number: its first character belongs to no number. -/
def EndsNumber (rest : List Char) : Prop :=
  ∀ c ∈ rest.head?, c.isDigit = false ∧ c ∉ ['+', '-', '.', 'e', 'E']

theorem EndsNumber.digit (h : EndsNumber rest) : ∀ c ∈ rest.head?, c.isDigit = false :=
  fun c hc => (h c hc).1

theorem EndsNumber.head?_ne (h : EndsNumber rest) {c : Char} (hc : c ∈ ['+', '-', '.', 'e', 'E']) :
    rest.head? ≠ some c :=
  fun hhead => (h c hhead).2 hc

theorem endsNumber_nil : EndsNumber [] := nofun

theorem endsNumber_cons {c : Char} (h : c ∈ [',', ']', '\x7d']) (cs : List Char) :
    EndsNumber (c :: cs) := by
  intro c' hc'
  cases hc'
  simp only [List.mem_cons, List.not_mem_nil, or_false] at h
  rcases h with rfl | rfl | rfl <;> decide

theorem digitsOf_before (h : EndsNumber rest) (cs : List Char) :
    digitsOf (cs ++ rest) = digitsOf cs :=
  takeWhile_before h.digit cs

theorem afterDigits_before (h : EndsNumber rest) (cs : List Char) :
    afterDigits (cs ++ rest) = afterDigits cs ++ rest :=
  dropWhile_before h.digit cs

theorem signOf_before (h : EndsNumber rest) (cs : List Char) : signOf (cs ++ rest) = signOf cs := by
  cases cs with
  | cons c cs => rfl
  | nil =>
    cases rest with
    | nil => rfl
    | cons c rest =>
      obtain ⟨hplus, hminus⟩ : c ≠ '+' ∧ c ≠ '-' := by
        have hc := (h c rfl).2
        simp only [List.mem_cons, not_or] at hc
        exact ⟨hc.1, hc.2.1⟩
      exact if_neg (not_or.2 ⟨hplus, hminus⟩)

theorem wholeDigits?_before (h : EndsNumber rest) (cs : List Char) :
    wholeDigits? (cs ++ rest) = (wholeDigits? cs).map fun r => (r.1, r.2 ++ rest) := by
  unfold wholeDigits?
  rw [digitsOf_before h, afterDigits_before h]
  split <;> rfl

theorem fractionDigits?_before (h : EndsNumber rest) (cs : List Char) :
    fractionDigits? (cs ++ rest) = (fractionDigits? cs).map fun r => (r.1, r.2 ++ rest) := by
  have hplain {cs : List Char} (hcs : ∀ cs', cs ≠ '.' :: cs') : fractionDigits? cs = some ([], cs) := by
    unfold fractionDigits?
    split
    · exact absurd rfl (hcs _)
    · rfl
  cases cs with
  | nil =>
    rw [List.nil_append, hplain]
    · rfl
    · rintro cs' rfl
      exact h.head?_ne (by decide) rfl
  | cons c cs =>
    by_cases hc : c = '.'
    · subst hc
      simp only [List.cons_append, fractionDigits?, digitsOf_before h,
        afterDigits_before h]
      split <;> rfl
    · rw [hplain, hplain]
      · rfl
      · exact fun cs' heq => hc (List.cons.inj heq).1
      · exact fun cs' heq => hc (List.cons.inj heq).1

theorem exponentInt?_before (h : EndsNumber rest) (cs : List Char) :
    exponentInt? (cs ++ rest) = (exponentInt? cs).map fun r => (r.1, r.2 ++ rest) := by
  cases cs with
  | nil =>
    cases rest with
    | nil => rfl
    | cons c rest =>
      obtain ⟨he, hE⟩ : c ≠ 'e' ∧ c ≠ 'E' :=
        ⟨fun hc => h.head?_ne (c := 'e') (by decide) (congrArg some hc),
          fun hc => h.head?_ne (c := 'E') (by decide) (congrArg some hc)⟩
      exact if_neg (not_or.2 ⟨he, hE⟩)
  | cons c cs =>
    have hle : (signOf cs).length ≤ cs.length := by
      have hsplit := congrArg List.length (signOf_append_drop cs)
      rw [List.length_append] at hsplit
      omega
    simp only [List.cons_append, exponentInt?, signOf_before h, List.drop_append_of_le_length hle,
      digitsOf_before h, afterDigits_before h]
    split
    · split <;> rfl
    · rfl

/-- A number is read the same in front of what can stand behind it. -/
theorem number?_before (h : EndsNumber rest) (cs : List Char) :
    number? (cs ++ rest) = (number? cs).map fun r => (r.1, r.2 ++ rest) := by
  have hminus : (cs ++ rest).head? = some '-' ↔ cs.head? = some '-' := by
    cases cs with
    | nil => exact ⟨fun hc => absurd hc (h.head?_ne (by decide)), nofun⟩
    | cons c cs => exact Iff.rfl
  have hbody : (if cs.head? = some '-' then (cs ++ rest).drop 1 else cs ++ rest)
      = (if cs.head? = some '-' then cs.drop 1 else cs) ++ rest := by
    split
    · cases cs with
      | nil => contradiction
      | cons c cs => rfl
    · rfl
  simp only [number?, hminus, hbody, wholeDigits?_before h]
  generalize (if cs.head? = some '-' then cs.drop 1 else cs) = body
  cases wholeDigits? body with
  | none => rfl
  | some w =>
    simp only [Option.map_some, Option.bind_eq_bind, Option.bind_some, fractionDigits?_before h]
    cases fractionDigits? w.2 with
    | none => rfl
    | some f =>
      simp only [Option.map_some, Option.bind_some, exponentInt?_before h]
      cases exponentInt? f.2 with
      | none => rfl
      | some e =>
        simp only [Option.map_some, Option.bind_some]
        split <;> rfl

/-- The digits of a number have no useless zero. -/
theorem number?_toDigits (negative : Bool) (n : Nat) :
    number? (minus negative ++ Nat.toDigits 10 n)
      = some (ofInteger negative (Nat.toDigits 10 n), []) := by
  rw [number?_of_isDigits (isDigits_toDigits n), if_neg]
  rintro ⟨hhead, hne⟩
  by_cases hn : n = 0
  · subst hn
    exact hne rfl
  · exact toDigits_head hn hhead

/-- An integer of 64 bits, with a sign or without, is read as itself. -/
theorem number?_int {n : Int} (h : -0x8000000000000000 ≤ n ∧ n < UInt64.size) :
    number? (toString n).toList = some (int n, []) := by
  have hvalue (k : Nat) : ofDigits (Nat.toDigits 10 k) = k := Nat.ofDigitChars_ten_toDigits
  rw [Int.toString_eq_repr, Int.repr_eq_if]
  by_cases hn : 0 ≤ n
  · rw [if_pos hn, Nat.toList_repr]
    refine (number?_toDigits false n.toNat).trans ?_
    rw [ofInteger_of_natural (by rw [hvalue]; omega), hvalue, Int.toNat_of_nonneg hn]
  · rw [if_neg hn, String.toList_append, Nat.toList_repr]
    refine (number?_toDigits true (-n).toNat).trans ?_
    simp only [ofInteger, hvalue, if_true]
    rw [if_pos (by omega), Int.toNat_of_nonneg (by omega), Int.neg_neg]

end QueryCompiler.Json
