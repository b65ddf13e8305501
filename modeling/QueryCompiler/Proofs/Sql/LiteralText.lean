import QueryCompiler.Proofs.Outcome
import QueryCompiler.Proofs.Text.Quoting
import QueryCompiler.Sql.Literal

/-!
# Texts of literals

A literal is written as a decimal numeral or in single quotes, whatever value it stands for.

1. `isNumeral_int`: an integer is written as a numeral.
2. `isNumeral_float`: so is a finite float, which never has an exponent.
3. `isQuoted_quote`: an escaped text between single quotes is one literal.

Main statement: `isLiteral_of_renders`, for every literal that a scalar becomes.
-/

namespace QueryCompiler

open Outcome Text

namespace Text

/-! ## Numerals -/

/-- At least one digit, and nothing else. -/
def IsDigits (cs : List Char) : Prop := cs ≠ [] ∧ ∀ c ∈ cs, c.isDigit = true

/-- Digits, perhaps with a point between them. -/
inductive IsUnsigned : List Char → Prop
  | whole {ds : List Char} (h : IsDigits ds) : IsUnsigned ds
  | point {ds ds' : List Char} (h : IsDigits ds) (h' : IsDigits ds') :
      IsUnsigned (ds ++ '.' :: ds')

/-- Digits, perhaps with a point between them and a minus sign in front. -/
inductive IsNumeral : List Char → Prop
  | positive {cs : List Char} (h : IsUnsigned cs) : IsNumeral cs
  | negative {cs : List Char} (h : IsUnsigned cs) : IsNumeral ('-' :: cs)

/-- What stands for a value in a statement. -/
def IsLiteral (cs : List Char) : Prop := IsNumeral cs ∨ IsQuoted cs

theorem isDigits_toDigits (n : Nat) : IsDigits (Nat.toDigits 10 n) :=
  ⟨Nat.toDigits_ne_nil, fun _ hc => Nat.isDigit_of_mem_toDigits (by decide) (by decide) hc⟩

theorem isDigits_append {cs cs' : List Char} (h : IsDigits cs)
    (h' : ∀ c ∈ cs', c.isDigit = true) : IsDigits (cs ++ cs') := by
  refine ⟨List.append_ne_nil_of_left_ne_nil h.1 cs', ?_⟩
  rw [List.forall_mem_append]
  exact ⟨h.2, h'⟩

/-- The digits in front of a position and those behind it, if there are any of both. -/
theorem isUnsigned_split {cs : List Char} {n : Nat} (h : ∀ c ∈ cs, c.isDigit = true)
    (hpos : 0 < n) (hlt : n < cs.length) : IsUnsigned (cs.take n ++ '.' :: cs.drop n) := by
  refine .point ⟨?_, fun c hc => h c (List.mem_of_mem_take hc)⟩
    ⟨?_, fun c hc => h c (List.mem_of_mem_drop hc)⟩
  · rw [← List.length_pos_iff, List.length_take]
    omega
  · rw [← List.length_pos_iff, List.length_drop]
    omega

theorem ofChar?_eq_none_of_isDigit {c : Char} (h : c.isDigit = true) : Quote.ofChar? c = none := by
  apply Quote.ofChar?_eq_none
  · rintro rfl
    cases h
  · rintro rfl
    cases h

theorem isPlain_of_isDigits {cs : List Char} (h : IsDigits cs) : IsPlain cs :=
  fun c hc => ofChar?_eq_none_of_isDigit (h.2 c hc)

theorem isPlain_of_isNumeral {cs : List Char} (h : IsNumeral cs) : IsPlain cs := by
  have hunsigned {cs : List Char} (h : IsUnsigned cs) : IsPlain cs := by
    cases h with
    | whole h => exact isPlain_of_isDigits h
    | point h h' =>
      rw [isPlain_append]
      exact ⟨isPlain_of_isDigits h,
        List.forall_mem_cons.2 ⟨by decide, isPlain_of_isDigits h'⟩⟩
  cases h with
  | positive h => exact hunsigned h
  | negative h => exact List.forall_mem_cons.2 ⟨by decide, hunsigned h⟩

/-- A scanner that was outside when a literal came is not inside any more when it is over. -/
theorem scan_of_isLiteral {cs : List Char} (h : IsLiteral cs) :
    (Mode.outside.scan cs).inLiteral = false := by
  rcases h with h | h
  · exact Mode.scan_of_plain rfl (isPlain_of_isNumeral h)
  · rw [scan_of_isQuoted h]
    rfl

theorem isNumeral_int (n : Int) : IsNumeral (toString n).toList := by
  rw [Int.toString_eq_repr, Int.repr_eq_if]
  by_cases h : 0 ≤ n
  · rw [if_pos h, Nat.toList_repr]
    exact .positive (.whole (isDigits_toDigits _))
  · rw [if_neg h, String.toList_append, Nat.toList_repr]
    exact .negative (.whole (isDigits_toDigits _))

end Text

/-! ## Floats -/

namespace Decimal

theorem isUnsigned_positionalText (d : Decimal) : IsUnsigned (plain.positionalText d) := by
  have hdigits : IsDigits d.digits := isDigits_toDigits _
  have hzeros (n : Nat) : ∀ c ∈ List.replicate n '0', c.isDigit = true := by
    intro c hc
    rw [List.eq_of_mem_replicate hc]
    rfl
  unfold Layout.positionalText
  by_cases h : 0 ≤ d.exponent
  · rw [if_pos h]
    refine .whole (isDigits_append (isDigits_append hdigits (hzeros _)) ?_)
    exact fun c hc => absurd hc List.not_mem_nil
  · -- There are at least as many digits as places and one more, so some stand before the point.
    rw [if_neg h]
    have hlength := List.length_pos_iff.2 hdigits.1
    refine isUnsigned_split ?_ ?_ ?_
    · rw [List.forall_mem_append]
      exact ⟨hzeros _, hdigits.2⟩
    · rw [List.length_append, List.length_replicate]
      omega
    · rw [List.length_append, List.length_replicate]
      omega

theorem isUnsigned_magnitudeText (mantissa : Nat) (exponent : Int) :
    IsUnsigned (plain.magnitudeText mantissa exponent) := by
  unfold Layout.magnitudeText
  by_cases h : mantissa = 0
  · rw [if_pos h]
    exact .whole ⟨List.cons_ne_nil _ _, List.forall_mem_singleton.2 rfl⟩
  · rw [if_neg h]
    exact isUnsigned_positionalText _

theorem isNumeral_float {x : Float} (h : (Binary.ofFloat x).isFinite = true) :
    IsNumeral (plain.text x).toList := by
  unfold Layout.text
  rw [String.toList_ofList]
  cases hx : Binary.ofFloat x with
  | nan | infinite negative => rw [hx] at h; cases h
  | finite negative mantissa exponent =>
    have hmagnitude := isUnsigned_magnitudeText mantissa exponent
    cases negative with
    | false => exact .positive hmagnitude
    | true => exact .negative hmagnitude

end Decimal

/-! ## Texts -/

namespace Literal

/-- A character is written as itself or behind a backslash. -/
theorem escapeChar_cases (c : Char) :
    (escapeChar c = [c] ∧ c ≠ '\\' ∧ Quote.ofChar? c = none) ∨ ∃ c', escapeChar c = ['\\', c'] := by
  by_cases h : c ∈ ['\x00', '\n', '\r', '\\', '\'', '"', '\x1a']
  · right
    simp only [List.mem_cons, List.not_mem_nil, or_false] at h
    rcases h with rfl | rfl | rfl | rfl | rfl | rfl | rfl <;> exact ⟨_, rfl⟩
  · left
    have hne {c' : Char} (hc' : c' ∈ ['\x00', '\n', '\r', '\\', '\'', '"', '\x1a']) : c ≠ c' := by
      rintro rfl
      exact h hc'
    refine ⟨(escapeChar_eq_self_iff c).2 h, hne (by decide), ?_⟩
    exact Quote.ofChar?_eq_none (hne (by decide)) (hne (by decide))

/-- An escaped text neither leaves the literal around it nor ends in the middle of an escape. -/
theorem scan_escapeChars (cs : List Char) :
    (Mode.inside .single).scan (escapeChars cs) = .inside .single ∧
      ∀ before, before <+: escapeChars cs →
        ((Mode.inside .single).scan before).inLiteral = true := by
  induction cs with
  | nil =>
    refine ⟨rfl, fun before h => ?_⟩
    rw [List.prefix_nil.1 h]
    rfl
  | cons c cs ih =>
    have hcons : escapeChars (c :: cs) = escapeChar c ++ escapeChars cs := List.flatMap_cons
    rw [hcons]
    rcases escapeChar_cases c with ⟨hc, hne, hq⟩ | ⟨c', hc⟩
    · rw [hc, List.singleton_append, Mode.scan_cons, Mode.next_inside_of_plain hne hq]
      refine ⟨ih.1, fun before h => ?_⟩
      rcases List.prefix_cons_iff.1 h with rfl | ⟨rest, rfl, hrest⟩
      · rfl
      · rw [Mode.scan_cons, Mode.next_inside_of_plain hne hq]
        exact ih.2 rest hrest
    · rw [hc]
      refine ⟨ih.1, fun before h => ?_⟩
      rcases List.prefix_cons_iff.1 h with rfl | ⟨tail, rfl, htail⟩
      · rfl
      rcases List.prefix_cons_iff.1 htail with rfl | ⟨rest, rfl, hrest⟩
      · rfl
      · exact ih.2 rest hrest

theorem isQuoted_quote (s : String) : IsQuoted (quote s).toList := by
  refine ⟨escapeChars s.toList, ?_, scan_escapeChars s.toList⟩
  unfold quote escape
  simp

/-! ## Literals -/

/-- A scalar is written as a literal: by its own kind, or by the type of a field. -/
def Renders (s : Scalar) (l : Literal) : Prop := element s = .ok l ∨ ∃ type, coerce type s = .ok l

theorem isLiteral_of_ofFloat {x : Float} {l : Literal} (h : ofFloat x = .ok l) :
    IsLiteral l.text.toList := by
  unfold ofFloat at h
  by_cases hx : (Decimal.Binary.ofFloat x).isFinite = true
  · rw [if_pos hx] at h
    cases h
    exact .inl (Decimal.isNumeral_float hx)
  · rw [if_neg hx] at h
    cases h

/-- Whatever a scalar becomes is a numeral or a literal in single quotes. -/
theorem isLiteral_of_renders {s : Scalar} {l : Literal} (h : Renders s l) :
    IsLiteral l.text.toList := by
  have hint (n : Int64) : IsLiteral (integer n).text.toList := .inl (isNumeral_int n.toInt)
  have hquoted (s : String) : IsLiteral (quoted s).text.toList := .inr (isQuoted_quote s)
  rcases h with h | ⟨type, h⟩
  · cases s with
    | bool b => cases h; exact hint _
    | int n => cases h; exact hint n
    | float x => exact isLiteral_of_ofFloat h
    | text s => cases h; exact hquoted s
    | dateTime t => cases h; exact hquoted _
  · cases type with
    | string | json | dateTime => cases h; exact hquoted _
    | integer | timestamp | other => cases h; exact hint _
    | float =>
      obtain ⟨x, -, h⟩ := bind_eq_ok_iff.1 h
      exact isLiteral_of_ofFloat h

theorem forall_isLiteral {ss : List Scalar} {ls : List Literal} (h : List.Forall₂ Renders ss ls) :
    ∀ l ∈ ls, IsLiteral l.text.toList := by
  induction h with
  | nil => exact fun l hl => absurd hl List.not_mem_nil
  | cons hrenders _ ih => exact List.forall_mem_cons.2 ⟨isLiteral_of_renders hrenders, ih⟩

/-- The literals of a list are what its scalars are written as. -/
theorem forall_renders_of_mapM {ss : List Scalar} {ls : List Literal}
    (h : ss.mapM element = .ok ls) : List.Forall₂ Renders ss ls :=
  (mapM_eq_ok_iff.1 h).imp fun _ _ => .inl

end Literal

end QueryCompiler
