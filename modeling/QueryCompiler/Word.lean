/-!
# Words

The integers that fit a signed word of 64 bits. Main statements: `word?_eq_some_iff` (a word is
found for an integer exactly if it denotes that integer) and `ofIntClamp_eq_getD` (else the word
next to it is an end of the words).
-/

namespace QueryCompiler

/-- The word that denotes an integer, if one does. -/
def word? (n : Int) : Option Int64 :=
  if -0x8000000000000000 ≤ n ∧ n < 0x8000000000000000 then some (Int64.ofInt n) else none

theorem word?_toInt (w : Int64) : word? w.toInt = some w := by
  have h₁ := w.le_toInt
  have h₂ := w.toInt_lt
  rw [word?, if_pos (by omega), Int64.ofInt_toInt]

theorem word?_eq_some_iff {n : Int} {w : Int64} : word? n = some w ↔ w.toInt = n := by
  constructor
  · intro h
    rw [word?] at h
    split at h
    · rename_i hn
      cases h
      exact Int64.toInt_ofInt_of_le (by omega) (by omega)
    · contradiction
  · rintro rfl
    exact word?_toInt w

theorem ofIntClamp_eq_getD (n : Int) :
    Int64.ofIntClamp n = (word? n).getD (if n < 0 then Int64.minValue else Int64.maxValue) := by
  have hmin : Int64.minValue.toInt = -0x8000000000000000 := rfl
  have hmax : Int64.maxValue.toInt = 0x8000000000000000 - 1 := rfl
  unfold Int64.ofIntClamp word?
  split
  · split
    · rw [if_pos (by omega), Int64.ofIntLE_eq_ofInt]
      rfl
    · rw [if_neg (by omega), Option.getD_none, if_neg (by omega)]
  · rw [if_neg (by omega), Option.getD_none, if_pos (by omega)]

end QueryCompiler
