import QueryCompiler.Proofs.Decimal.IntegerPrefix
import QueryCompiler.Proofs.Stored.RoundTrip

/-!
# Literals of stored scalars

A date-time comes back from a stored request as a text. Where a text stands in a statement, this one
has a `T` that the date-time has not; where an integer does, the text starts with the year, and the
date-time counts seconds; where a float does, the date-time has none. So a stored scalar means the
same exactly if it is no date-time, or one whose year and seconds are by chance the same number.

1. `DateTime.storedText_ne_text` and `DateTime.toInteger_storedText`: the two texts, and the number in
   front of one.
2. `Literal.coerce_stored_iff`: a literal by the type of its field.
3. `Literal.element_stored_iff`: a literal in a list.
-/

namespace QueryCompiler

open Decimal Text

namespace DateTime

/-- Between day and hour the stored text has another character. -/
theorem storedText_ne_text (t : DateTime) : t.storedText ≠ t.text := by
  intro h
  have hchars := congrArg String.toList h
  simp [storedText, text, textWith] at hchars

theorem isDigits_padded (width n : Nat) : IsDigits (padded width n) := by
  have hdigits := isDigits_toDigits n
  refine ⟨List.append_ne_nil_of_right_ne_nil _ hdigits.1, fun c hc => ?_⟩
  rcases List.mem_append.1 hc with hzero | hc
  · rw [List.eq_of_mem_replicate hzero]
    rfl
  · exact hdigits.2 c hc

/-- Zeros in front do not count. -/
theorem ofDigits_padded (width n : Nat) : ofDigits (padded width n) = n := by
  have hzeros (k : Nat) (ds : List Char) : ofDigits (List.replicate k '0' ++ ds) = ofDigits ds := by
    induction k with
    | zero => rfl
    | succ k ih => exact ih
  rw [padded, hzeros]
  exact Nat.ofDigitChars_ten_toDigits

theorem exists_yearText (year : Int) :
    ∃ sign ds, yearText year = sign ++ ds ∧ IsSign sign ∧ IsDigits ds ∧ integer sign ds = year := by
  have hdigits := isDigits_padded 4 year.natAbs
  have hvalue : ofDigits (padded 4 year.natAbs) = year.natAbs := ofDigits_padded ..
  generalize hds : padded 4 year.natAbs = ds at hdigits hvalue
  unfold yearText
  rw [hds]
  split
  · refine ⟨[], ds, rfl, .none, hdigits, ?_⟩
    rw [integer, if_neg (by decide), hvalue]
    omega
  · split
    · refine ⟨['-'], ds, rfl, .minus, hdigits, ?_⟩
      rw [integer, if_pos rfl, hvalue]
      omega
    · refine ⟨['+'], ds, rfl, .plus, hdigits, ?_⟩
      rw [integer, if_neg (by decide), hvalue]
      omega

/-- A stored date-time is cast to its year. -/
theorem toInteger_storedText (t : DateTime) :
    (Scalar.text t.storedText).toInteger = Int64.ofIntClamp t.year := by
  obtain ⟨sign, ds, hyear, hs, hd, hvalue⟩ := exists_yearText t.year
  obtain ⟨rest, htext⟩ : ∃ rest, t.storedText.toList = [] ++ (sign ++ ds) ++ '-' :: rest :=
    ⟨_, by rw [storedText, textWith, hyear, String.toList_ofList]; simp; rfl⟩
  have hfront : IsLongest IsInteger (dropBlank t.storedText.toList) (sign ++ ds) := by
    rw [htext]
    refine isLongest_isInteger nofun (.intro hs hd) fun c hc => ?_
    cases hc
    rfl
  refine Int64.toInt_inj.1 ?_
  rw [Scalar.toInteger_text_of_front hfront, toInt_ofIntClamp, valueOf_append hs hd, hvalue]

end DateTime

namespace Literal

/-- The text of a date-time never fails as a date-time does, where it fails at all. -/
theorem ofFloat_ne_dateTimeAsFloat (x : Float) :
    ofFloat x ≠ .error (.invalidValue .dateTimeAsFloat) := by
  intro h
  cases (ofFloat_eq_error_iff.1 h).2

/-- Under the types of a field a date-time and its stored text are the same literal exactly if an
integer is asked for and the seconds are the year. -/
theorem coerce_storedText_iff (type : DomainType) (t : DateTime) :
    coerce type (.text t.storedText) = coerce type (.dateTime t) ↔
      type ∈ [DomainType.integer, .timestamp, .other] ∧
        Int64.ofIntClamp t.year = Int64.ofInt t.epochSeconds := by
  have hinteger : integer (Scalar.text t.storedText).toInteger
      = integer (Scalar.dateTime t).toInteger ↔
        Int64.ofIntClamp t.year = Int64.ofInt t.epochSeconds := by
    rw [t.toInteger_storedText, integer.injEq]
    rfl
  have hquoted : quoted (Scalar.text t.storedText).toText ≠ quoted (Scalar.dateTime t).toText :=
    fun h => t.storedText_ne_text (quoted.inj h)
  have hfloat : coerce .float (.text t.storedText) ≠ coerce .float (.dateTime t) :=
    ofFloat_ne_dateTimeAsFloat _
  cases type with
  | float => simpa using hfloat
  | string | json | dateTime => simpa [coerce] using hquoted
  | integer | timestamp | other => simpa [coerce] using hinteger

theorem coerce_stored_iff (type : DomainType) (s : Scalar) :
    coerce type s.stored = coerce type s ↔
      ∀ t, s = .dateTime t → type ∈ [DomainType.integer, .timestamp, .other] ∧
        Int64.ofIntClamp t.year = Int64.ofInt t.epochSeconds := by
  cases s with
  | dateTime t => simpa [Scalar.stored] using coerce_storedText_iff type t
  | _ => simp [Scalar.stored]

theorem element_stored_iff (s : Scalar) :
    element s.stored = element s ↔ ∀ t, s ≠ .dateTime t := by
  cases s with
  | dateTime t => simpa [Scalar.stored, element] using t.storedText_ne_text
  | _ => simp [Scalar.stored]

end Literal

end QueryCompiler
