/-!
# Hexadecimal numbers

Digits of either case, most significant first. Main statement: `hexNumber?_append`.
-/

namespace QueryCompiler.Text

/-- The value of a hexadecimal digit. -/
def hexValue? (c : Char) : Option Nat :=
  if '0' ≤ c ∧ c ≤ '9' then some (c.toNat - '0'.toNat)
  else if 'a' ≤ c ∧ c ≤ 'f' then some (c.toNat - 'a'.toNat + 10)
  else if 'A' ≤ c ∧ c ≤ 'F' then some (c.toNat - 'A'.toNat + 10)
  else none

/-- One more digit behind a number. -/
def hexStep (n : Nat) (c : Char) : Option Nat := (hexValue? c).map (16 * n + ·)

/-- The number of some digits. -/
def hexNumber? (cs : List Char) : Option Nat := cs.foldlM hexStep 0

theorem hexNumber?_append (cs ds : List Char) :
    hexNumber? (cs ++ ds) = (hexNumber? cs).bind fun n => ds.foldlM hexStep n := by
  simp [hexNumber?, List.foldlM_append]

end QueryCompiler.Text
