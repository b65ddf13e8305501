/-!
# White space

`isBlank` is the Unicode property `White_Space`; `trim` and `trimStart` take such characters off a
text. Main statements: `isBlank_of_isWhitespace` (nothing that core calls white space is missed)
and `trimStart_eq` (only blanks are taken off, and none is left in front).
-/

namespace QueryCompiler.Text

/-- Code points of the blank characters, as closed ranges, ascending and apart. -/
def blankRanges : List (Nat × Nat) :=
  [(0x09, 0x0D), (0x20, 0x20), (0x85, 0x85), (0xA0, 0xA0), (0x1680, 0x1680), (0x2000, 0x200A),
   (0x2028, 0x2029), (0x202F, 0x202F), (0x205F, 0x205F), (0x3000, 0x3000)]

/-- Membership of a code point in one of several closed ranges. -/
def inRanges (ranges : List (Nat × Nat)) (n : Nat) : Bool :=
  ranges.any fun r => decide (r.1 ≤ n) && decide (n ≤ r.2)

/-- The characters with the property `White_Space`. -/
def isBlank (c : Char) : Bool := inRanges blankRanges c.toNat

theorem isBlank_of_isWhitespace {c : Char} (h : c.isWhitespace = true) : isBlank c = true := by
  simp only [Char.isWhitespace, Bool.or_eq_true, decide_eq_true_eq] at h
  rcases h with ((h | h) | h) | h <;> subst h <;> decide

/-! ## Taking blanks off -/

/-- The characters from the first one that is not blank. -/
def dropBlank (cs : List Char) : List Char := cs.dropWhile isBlank

theorem dropBlank_cons (c : Char) (cs : List Char) :
    dropBlank (c :: cs) = if isBlank c then dropBlank cs else c :: cs := by
  simp [dropBlank, List.dropWhile_cons]

/-- The characters between the first and the last one that are not blank. -/
def strip (cs : List Char) : List Char := (dropBlank (dropBlank cs).reverse).reverse

/-- A text without its leading blanks. -/
def trimStart (s : String) : String := String.ofList (dropBlank s.toList)

/-- A text without its leading and trailing blanks. -/
def trim (s : String) : String := String.ofList (strip s.toList)

theorem isBlank_of_mem_takeWhile {c : Char} {cs : List Char} (h : c ∈ cs.takeWhile isBlank) :
    isBlank c = true := by
  induction cs with
  | nil => simp at h
  | cons d ds ih =>
    rw [List.takeWhile_cons] at h
    split at h
    · rcases List.mem_cons.1 h with rfl | h
      · assumption
      · exact ih h
    · simp at h

theorem isBlank_head_dropBlank {c : Char} {cs : List Char} (h : (dropBlank cs).head? = some c) :
    isBlank c = false := by
  induction cs with
  | nil => simp [dropBlank] at h
  | cons d ds ih =>
    rw [dropBlank_cons] at h
    split at h
    · exact ih h
    · simp_all

theorem trimStart_eq (s : String) :
    ∃ blanks, s.toList = blanks ++ (trimStart s).toList ∧ (∀ c ∈ blanks, isBlank c = true) ∧
      ∀ c, (trimStart s).toList.head? = some c → isBlank c = false :=
  ⟨s.toList.takeWhile isBlank, by simp [trimStart, dropBlank], fun _ => isBlank_of_mem_takeWhile,
    fun _ h => isBlank_head_dropBlank (by simpa [trimStart] using h)⟩

/-- The spelling of a key word: its text without surrounding blanks, ASCII letters in upper case. -/
def keyword (s : String) : String := String.ofList ((strip s.toList).map Char.toUpper)

/-- The spelling of a name in which case is of no account: its text without surrounding blanks,
ASCII letters in lower case. -/
def caseless (s : String) : String := String.ofList ((strip s.toList).map Char.toLower)

end QueryCompiler.Text
