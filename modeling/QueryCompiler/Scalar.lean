import QueryCompiler.Calendar
import QueryCompiler.Decimal.Layout
import QueryCompiler.Decimal.Numeral
import QueryCompiler.Text.Blank
import QueryCompiler.Word

/-!
# Scalars

A `Scalar` is a single value of a request, and `text` its plain text. The casts are loose:
`toInteger` and `toFloat?` take from a text the number it starts with. Main statements:
`leadingInteger_eq_ofIntClamp` (an integer that takes more than a word becomes the nearest one),
`toList_withPoints` (only commas change) and `toFloat?_eq_none_iff` (only a date-time has no
float).
-/

namespace QueryCompiler

open Text Decimal

/-- A single value. -/
inductive Scalar
  | bool (b : Bool)
  | int (n : Int64)
  | float (x : Float)
  | text (s : String)
  | dateTime (t : DateTime)
deriving DecidableEq

namespace Scalar

def isText : Scalar → Bool
  | text _ => true
  | _ => false

/-- The text of a scalar: truth is one, and a float never has an exponent. -/
def toText : Scalar → String
  | bool b => if b then "1" else "0"
  | int n => toString n.toInt
  | float x => plain.text x
  | text s => s
  | dateTime t => t.text

/-- The integer that a text starts with after blanks, zero if there is none. If it does not fit a
word, it is the first word or the last one by its sign. -/
def leadingInteger (s : String) : Int64 :=
  let cs := (trimStart s).toList
  match integerPrefix? cs with
  | none => 0
  | some n =>
    match word? n with
    | some w => w
    | none => if cs.head? = some '-' then Int64.minValue else Int64.maxValue

/-- The decimal that a text starts with after blanks; zero if there is none. -/
def leadingFloat (s : String) : Float :=
  ((Numeral.ofPrefix? (trimStart s).toList).map Numeral.toFloat).getD 0.0

/-- A decimal comma is as good as a point. -/
def withPoints (s : String) : String := s.map fun c => if c = ',' then '.' else c

/-- Loose cast: floats lose their fraction and stay within 64 bits. -/
def toInteger : Scalar → Int64
  | bool b => if b then 1 else 0
  | int n => n
  | float x => (Binary.ofFloat x).truncate
  | text s => leadingInteger s
  | dateTime t => Int64.ofInt t.epochSeconds

/-- Loose cast; a date-time has no float. -/
def toFloat? : Scalar → Option Float
  | bool b => some (if b then 1.0 else 0.0)
  | int n => some (Float.ofInt n.toInt)
  | float x => some x
  | text s => some (leadingFloat (withPoints s))
  | dateTime _ => none

/-- The sign in front is the sign of the integer, unless this is zero. -/
theorem head?_of_integerPrefix? {cs : List Char} {n : Int} (h : integerPrefix? cs = some n) :
    (cs.head? = some '-' → n ≤ 0) ∧ (cs.head? ≠ some '-' → 0 ≤ n) := by
  have hsign : signOf cs = ['-'] ↔ cs.head? = some '-' := by
    cases cs with
    | nil => simp [signOf]
    | cons c cs =>
      simp only [signOf, List.head?_cons, Option.some.injEq]
      split
      · exact ⟨fun h => (List.cons.inj h).1, fun h => by rw [h]⟩
      · rename_i hc
        refine ⟨fun h => ?_, fun h => absurd (.inr h) hc⟩
        cases h
  simp only [integerPrefix?] at h
  split at h
  · cases h
  · cases h
    rw [ne_eq, ← hsign]
    by_cases hs : signOf cs = ['-']
    · simp [integer, hs]
    · simp [integer, hs]

/-- The branches of `leadingInteger` together hold the integer within the words. -/
theorem leadingInteger_eq_ofIntClamp (s : String) :
    leadingInteger s = Int64.ofIntClamp ((integerPrefix? (trimStart s).toList).getD 0) := by
  simp only [leadingInteger]
  split
  · rename_i hnone
    rw [hnone]
    rfl
  · rename_i n hn
    obtain ⟨hneg, hpos⟩ := head?_of_integerPrefix? hn
    rw [hn, Option.getD_some, ofIntClamp_eq_getD]
    split
    · rename_i w hw
      rw [hw, Option.getD_some]
    · rename_i hw
      -- No word fits, so the integer is not zero and its sign is the one in front.
      have hzero : n ≠ 0 := by
        rintro rfl
        cases hw
      rw [hw, Option.getD_none]
      by_cases hhead : (trimStart s).toList.head? = some '-'
      · have := hneg hhead
        rw [if_pos hhead, if_pos (by omega)]
      · have := hpos hhead
        rw [if_neg hhead, if_neg (by omega)]

theorem toList_withPoints (s : String) :
    (withPoints s).toList = s.toList.map fun c => if c = ',' then '.' else c := by
  simp [withPoints]

theorem toFloat?_eq_none_iff (s : Scalar) : s.toFloat? = none ↔ ∃ t, s = dateTime t := by
  cases s <;> simp [toFloat?]

end Scalar

end QueryCompiler
