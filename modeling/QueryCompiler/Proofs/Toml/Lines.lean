import QueryCompiler.Proofs.Toml.Texts
import QueryCompiler.Toml.Reader

/-!
# Lines below a file

A file can be written on: the lines of what is put below it, behind a line end, come after its own.
The reader has fuel, and takes the first thing that fits; so the fuel is accounted for, and what
fitted is shown to fit still.

1. `isSolid_of_value?`: no value begins with a gap, so the gap in front of it is all skipped.
2. `valuesReadAbove`: values, items and pairs are read the same, one case for each kind.
3. `lines?_append`: the lines of two files, one below the other.

Main statement: `lines?_append`.
-/

namespace QueryCompiler.Toml

open Decimal

variable {cs rest tail : List Char} {fuel fuel' levels : Nat} {c : Char}

/-! ## How numbers begin -/

theorem dateTime?_of_not_isDigit (hc : isDigit c = false) (cs : List Char) :
    dateTime? (c :: cs) = none := by
  have hdate : date? (c :: cs) = none := by
    unfold date?
    split
    · rename_i heq
      obtain ⟨rfl, -⟩ := List.cons.inj heq
      simp [hc]
    · rfl
  have htime : time? (c :: cs) = none := by
    unfold time?
    split
    · rename_i heq
      obtain ⟨rfl, -⟩ := List.cons.inj heq
      simp [twoDigits?, hc]
    · rfl
  rw [dateTime?, afterDateTime?, hdate]
  simp only [htime, Option.map_none]

theorem whole?_of_not_isDigit (hc : isDigit c = false) (cs : List Char) :
    whole? (c :: cs) = none := by
  have hzero : ∀ cs', c :: cs ≠ ['0'] ++ cs' := by
    intro cs' heq
    obtain ⟨rfl, -⟩ := List.cons.inj heq
    cases hc
  rw [whole?_of_ne hzero, grouped?, if_neg (by simp [hc])]

/-- A number that begins with no digit begins with a sign or one of the two words. -/
theorem number?_of_not_isDigit (hc : isDigit c = false) (hsign : signOf (c :: cs) = [])
    (hi : c ≠ 'i') (hn : c ≠ 'n') : number? (c :: cs) = none := by
  have hdecimal : decimal? (c :: cs) = none := by
    rw [decimal?, hsign]
    simp only [List.length_nil, List.drop_zero, whole?_of_not_isDigit hc]
    rfl
  have hspecial : special? (c :: cs) = none := by
    rw [special?, hsign]
    simp only [List.length_nil, List.drop_zero]
    split
    · rename_i heq
      exact absurd (List.cons.inj heq).1 hi
    · rename_i heq
      exact absurd (List.cons.inj heq).1 hn
    · rfl
  have hinteger : Toml.integer? (c :: cs) = none := by
    rw [Toml.integer?, hsign]
    simp only [List.length_nil, List.drop_zero, whole?_of_not_isDigit hc]
    rfl
  have hzero : c ≠ '0' := by
    rintro rfl
    cases hc
  rw [number?, dateTime?_of_not_isDigit hc, hdecimal, hspecial]
  simp only [Option.orElse_none]
  · exact hinteger
  all_goals exact fun _ heq => hzero (List.cons.inj heq).1

theorem isSolid_of_number? {t : Toml} (h : number? (c :: cs) = some (t, rest)) : IsSolid c := by
  refine Classical.byContradiction fun hc => ?_
  have hgap : c = ' ' ∨ c = '\t' ∨ c = '\n' ∨ c = '\r' ∨ c = '#' := by
    simp only [IsSolid, isSpace] at hc
    grind
  have hnone : number? (c :: cs) = none := by
    rcases hgap with rfl | rfl | rfl | rfl | rfl <;>
      exact number?_of_not_isDigit (by decide) rfl (by decide) (by decide)
  rw [hnone] at h
  cases h

/-- A value is not nothing, and does not begin with a gap. -/
theorem isSolid_of_value? {t : Toml} (h : value? fuel levels cs = some (t, rest)) :
    ∃ c cs', cs = c :: cs' ∧ IsSolid c := by
  cases fuel with
  | zero => cases h
  | succ fuel =>
    unfold value? at h
    split at h
    case h_7 =>
      cases cs with
      | nil => cases h
      | cons c cs => exact ⟨c, cs, rfl, isSolid_of_number? h⟩
    all_goals exact ⟨_, _, rfl, by decide⟩

/-! ## Values -/

/-- The readers of a value, of items and of pairs, with some fuel at each depth. -/
structure ValuesReadAbove (fuel : Nat) : Prop where
  value : ∀ levels, ReadsAbove fuel fun fuel => value? fuel levels
  items : ∀ levels, ReadsAbove fuel fun fuel => items? fuel levels
  pairs : ∀ levels, ReadsAbove fuel fun fuel => pairs? fuel levels

theorem value?_above (hv : ValuesReadAbove fuel) (levels : Nat) :
    ReadsAbove (fuel + 1) fun fuel => value? fuel levels := by
  intro cs t rest h fuel' hf tail
  obtain ⟨fuel', rfl⟩ := Nat.exists_eq_add_of_lt hf
  have hle : fuel ≤ fuel + fuel' := Nat.le_add_right fuel fuel'
  dsimp only at h ⊢
  unfold value? at h
  split at h
  · obtain ⟨⟨body, rest'⟩, hbody, h⟩ := Option.map_eq_some_iff.1 h
    cases h
    simp only [List.cons_append, value?, quoted?_above (.inl rfl) hbody, Option.map_some]
  · obtain ⟨⟨body, rest'⟩, hbody, h⟩ := Option.map_eq_some_iff.1 h
    cases h
    simp only [List.cons_append, value?, quoted?_above (.inr rfl) hbody, Option.map_some]
  · split at h
    · cases h
    · rename_i hlevels
      obtain ⟨⟨ts, rest'⟩, hitems, h⟩ := Option.map_eq_some_iff.1 h
      cases h
      simp only [List.cons_append, value?, if_neg hlevels, hv.items _ hitems hle, Option.map_some]
  · split at h
    · cases h
    · rename_i hlevels
      simp only [List.cons_append, value?, if_neg hlevels, skipSpace_lineEnd]
      split at h
      · rename_i hbrace
        cases h
        simp only [hbrace, List.cons_append]
        rfl
      · rename_i hbrace
        simp only [Option.bind_eq_bind, Option.bind_eq_some_iff] at h
        obtain ⟨⟨ps, rest'⟩, hpairs, es, hes, h⟩ := h
        cases h
        split
        · rename_i heq
          exact absurd heq (ne_append_of_lineEnd (w := ['\x7d']) (by decide) hbrace _)
        · simp only [hv.pairs _ hpairs hle, hes, Option.bind_eq_bind, Option.bind_some]
          rfl
  · cases h
    rfl
  · cases h
    rfl
  · rename_i h₁ h₂ h₃ h₄ h₅ h₆
    rw [value?, stops_number?.above h]
    · exact fun cs' => ne_append_of_lineEnd (w := ['"']) (by decide) h₁ cs'
    · exact fun cs' => ne_append_of_lineEnd (w := ['\'']) (by decide) h₂ cs'
    · exact fun cs' => ne_append_of_lineEnd (w := ['[']) (by decide) h₃ cs'
    · exact fun cs' => ne_append_of_lineEnd (w := ['\x7b']) (by decide) h₄ cs'
    · exact fun cs' => ne_append_of_lineEnd (w := ['t', 'r', 'u', 'e']) (by decide) h₅ cs'
    · exact fun cs' => ne_append_of_lineEnd (w := ['f', 'a', 'l', 's', 'e']) (by decide) h₆ cs'

theorem isSolid_comma : IsSolid ',' := by decide

theorem isSolid_bracket : IsSolid ']' := by decide

theorem items?_above (hv : ValuesReadAbove fuel) (levels : Nat) :
    ReadsAbove (fuel + 1) fun fuel => items? fuel levels := by
  intro cs ts rest h fuel' hf tail
  obtain ⟨fuel', rfl⟩ := Nat.exists_eq_add_of_lt hf
  have hle : fuel ≤ fuel + fuel' := Nat.le_add_right fuel fuel'
  -- More comments may be skipped in a longer text, so its gaps are skipped with more fuel.
  have hlonger (cs : List Char) : cs.length ≤ (cs ++ '\n' :: tail).length := by simp
  dsimp only at h ⊢
  rw [items?] at h ⊢
  split at h
  · rename_i hend
    cases h
    rw [skipLines_above hend isSolid_bracket (hlonger cs)]
    rfl
  · rename_i hend
    simp only [Option.bind_eq_bind, Option.bind_eq_some_iff] at h
    obtain ⟨⟨t, rest₁⟩, hvalue, h⟩ := h
    obtain ⟨c, cs₁, hcs₁, hc⟩ := isSolid_of_value? hvalue
    rw [skipLines_above hcs₁ hc (hlonger cs), ← hcs₁]
    split
    · rename_i heq
      exact absurd heq (ne_append_of_lineEnd (w := [']']) (by decide) hend _)
    · simp only [hv.value _ hvalue hle, Option.bind_eq_bind, Option.bind_some]
      split at h
      · rename_i rest₂ hcomma
        obtain ⟨⟨ts', rest₃⟩, hitems, h⟩ := Option.bind_eq_some_iff.1 h
        cases h
        rw [skipLines_above hcomma isSolid_comma (hlonger rest₁)]
        simp only [List.cons_append, hv.items _ hitems hle, Option.bind_some]
        rfl
      · rename_i rest₂ hend
        cases h
        rw [skipLines_above hend isSolid_bracket (hlonger rest₁)]
        rfl
      · cases h

theorem pairs?_above (hv : ValuesReadAbove fuel) (levels : Nat) :
    ReadsAbove (fuel + 1) fun fuel => pairs? fuel levels := by
  intro cs ps rest h fuel' hf tail
  obtain ⟨fuel', rfl⟩ := Nat.exists_eq_add_of_lt hf
  have hle : fuel ≤ fuel + fuel' := Nat.le_add_right fuel fuel'
  dsimp only at h ⊢
  simp only [pairs?, Option.bind_eq_bind, Option.bind_eq_some_iff] at h
  obtain ⟨⟨path, rest₁⟩, hpath, h⟩ := h
  simp only [pairs?, path?_above hpath, Option.bind_eq_bind, Option.bind_some, skipSpace_lineEnd]
  split at h
  · rename_i rest₂ hequals
    obtain ⟨⟨t, rest₃⟩, hvalue, h⟩ := Option.bind_eq_some_iff.1 h
    simp only [hequals, List.cons_append, skipSpace_lineEnd, hv.value _ hvalue hle, Option.bind_some]
    split at h
    · rename_i rest₄ hcomma
      obtain ⟨⟨ps', rest₅⟩, hpairs, h⟩ := Option.bind_eq_some_iff.1 h
      cases h
      simp only [hcomma, List.cons_append, hv.pairs _ hpairs hle, Option.bind_some]
      rfl
    · rename_i rest₄ hend
      cases h
      simp only [hend, List.cons_append]
      rfl
    · cases h
  · cases h

/-- Values are read the same when a line end and more stand below. -/
theorem valuesReadAbove (fuel : Nat) : ValuesReadAbove fuel := by
  induction fuel with
  | zero => constructor <;> exact fun _ _ _ _ h => nomatch h
  | succ fuel ih => exact ⟨value?_above ih, items?_above ih, pairs?_above ih⟩

/-! ## Lines -/

theorem header?_above {line : Line} (h : header? cs = some (line, rest)) (tail : List Char) :
    header? (cs ++ '\n' :: tail) = some (line, rest ++ '\n' :: tail) := by
  unfold header? at h
  split at h
  · obtain ⟨⟨path, rest'⟩, hpath, h⟩ := Option.bind_eq_some_iff.1 h
    simp only [List.cons_append, header?, path?_above hpath, Option.bind_eq_bind, Option.bind_some]
    dsimp only at h
    split at h
    · cases h
      rfl
    · cases h
  · rename_i hbracket
    obtain ⟨⟨path, rest'⟩, hpath, h⟩ := Option.bind_eq_some_iff.1 h
    rw [header?]
    · simp only [path?_above hpath, Option.bind_eq_bind, Option.bind_some]
      dsimp only at h
      split at h
      · cases h
        rfl
      · cases h
    · exact fun cs' => ne_append_of_lineEnd (w := ['[']) (by decide) hbracket cs'

theorem pair?_above {line : Line} (h : pair? cs = some (line, rest)) (tail : List Char) :
    pair? (cs ++ '\n' :: tail) = some (line, rest ++ '\n' :: tail) := by
  obtain ⟨⟨path, rest'⟩, hpath, h⟩ := Option.bind_eq_some_iff.1 h
  simp only [pair?, path?_above hpath, Option.bind_eq_bind, Option.bind_some]
  dsimp only at h
  split at h
  · rename_i rest₁
    obtain ⟨⟨t, rest₂⟩, hvalue, h⟩ := Option.bind_eq_some_iff.1 h
    cases h
    have hle : 2 * rest₁.length + 2 ≤ 2 * (rest₁ ++ '\n' :: tail).length + 2 := by
      rw [List.length_append]
      omega
    have habove := (valuesReadAbove _).value depthLimit hvalue hle tail
    simp only [List.cons_append, skipSpace_lineEnd, habove, Option.bind_some]
    rfl
  · cases h

theorem skipComment_lineEnd (cs tail : List Char) :
    skipComment (cs ++ '\n' :: tail) = skipComment cs ++ '\n' :: tail := by
  by_cases hcomment : ∃ cs', cs = ['#'] ++ cs'
  · obtain ⟨cs', rfl⟩ := hcomment
    exact dropWhile_lineEnd rfl cs' tail
  · have hskip {cs : List Char} (h : ∀ cs', cs ≠ ['#'] ++ cs') : skipComment cs = cs := by
      unfold skipComment
      split
      · exact absurd rfl (h _)
      · rfl
    rw [not_exists] at hcomment
    rw [hskip hcomment, hskip (ne_append_of_lineEnd (by decide) hcomment)]

/-- A line that ended with a line end still does, and the last line gets one. -/
theorem lineEnd?_above (h : lineEnd? cs = some rest) (tail : List Char) :
    lineEnd? (cs ++ '\n' :: tail) = some (rest ++ '\n' :: tail) ∨
      rest = [] ∧ lineEnd? (cs ++ '\n' :: tail) = some tail := by
  simp only [lineEnd?, skipSpace_lineEnd, skipComment_lineEnd] at h ⊢
  split at h
  · rename_i hend
    cases h
    exact .inr ⟨rfl, by simp [hend, newline?]⟩
  · refine .inl ?_
    split
    · rename_i heq
      exact absurd heq (by simp)
    · exact newline?_above h tail

/-- A line that is not empty, without its end: a header, or a key and a value. -/
def line? (c : Char) (cs : List Char) : Option (Line × List Char) :=
  if c = '[' then header? cs else pair? (c :: cs)

theorem line?_above {line : Line} (h : line? c cs = some (line, rest)) (tail : List Char) :
    line? c (cs ++ '\n' :: tail) = some (line, rest ++ '\n' :: tail) := by
  unfold line? at h ⊢
  split at h
  · rename_i hbracket
    rw [if_pos hbracket]
    exact header?_above h tail
  · rename_i hbracket
    rw [if_neg hbracket]
    exact pair?_above h tail

/-- The lines from the first one on: none, an empty one, or one that is kept. -/
theorem lines?_succ (fuel : Nat) (cs : List Char) : lines? (fuel + 1) cs =
    match skipSpace cs with
    | [] => some []
    | c :: cs =>
      if c = '#' ∨ c = '\n' ∨ c = '\r' then (lineEnd? (c :: cs)).bind (lines? fuel)
      else (line? c cs).bind fun r => ((lineEnd? r.2).bind (lines? fuel)).map (r.1 :: ·) := by
  rw [lines?]
  cases skipSpace cs with
  | nil => rfl
  | cons c cs =>
    dsimp only
    split
    · rfl
    · simp only [line?, Option.map_eq_bind, Option.bind_assoc]
      split <;> rfl

theorem lines?_mono {ls : List Line} (h : lines? fuel cs = some ls) (hf : fuel ≤ fuel') :
    lines? fuel' cs = some ls := by
  induction fuel generalizing fuel' cs ls with
  | zero => cases h
  | succ fuel ih =>
    obtain ⟨fuel', rfl⟩ := Nat.exists_eq_add_of_lt hf
    have hle : fuel ≤ fuel + fuel' := Nat.le_add_right fuel fuel'
    rw [lines?_succ] at h ⊢
    split at h
    · exact h
    · split at h
      · rename_i hgap
        obtain ⟨below, hend, h⟩ := Option.bind_eq_some_iff.1 h
        rw [if_pos hgap, hend]
        exact ih h hle
      · rename_i hgap
        obtain ⟨⟨line, rest⟩, hline, h⟩ := Option.bind_eq_some_iff.1 h
        obtain ⟨ls', hlines, rfl⟩ := Option.map_eq_some_iff.1 h
        obtain ⟨below, hend, hlines⟩ := Option.bind_eq_some_iff.1 hlines
        rw [if_neg hgap, hline, Option.bind_some, hend, Option.bind_some, ih hlines hle]
        rfl

theorem lines?_nil {ls : List Line} (h : lines? fuel [] = some ls) : ls = [] := by
  cases fuel with
  | zero => cases h
  | succ fuel =>
    cases h
    rfl

/-- The lines of two files, one put below the other. -/
theorem lines?_append {ls ls' : List Line} {fuel₂ : Nat} (h : lines? fuel cs = some ls)
    (htail : lines? fuel₂ tail = some ls') (hf : fuel + fuel₂ < fuel') :
    lines? fuel' (cs ++ '\n' :: tail) = some (ls ++ ls') := by
  induction fuel generalizing fuel' cs ls with
  | zero => cases h
  | succ fuel ih =>
    obtain ⟨fuel', rfl⟩ : ∃ n, fuel' = n + 1 := ⟨fuel' - 1, by omega⟩
    have htail' : lines? fuel' tail = some ls' := lines?_mono htail (by omega)
    -- Where a line is done, either the file goes on or what stands below it comes next.
    have hbelow {rest below : List Char} {ls : List Line} (hend : lineEnd? rest = some below)
        (hlines : lines? fuel below = some ls) :
        (lineEnd? (rest ++ '\n' :: tail)).bind (lines? fuel') = some (ls ++ ls') := by
      rcases lineEnd?_above hend tail with hend' | ⟨rfl, hend'⟩
      · rw [hend', Option.bind_some, ih hlines (by omega)]
      · rw [hend', Option.bind_some, htail', lines?_nil hlines]
        rfl
    rw [lines?_succ] at h ⊢
    rw [skipSpace_lineEnd]
    cases hcs : skipSpace cs with
    | nil =>
      rw [hcs] at h
      cases h
      exact htail'
    | cons c cs' =>
      rw [hcs] at h
      simp only [List.cons_append] at h ⊢
      split at h
      · rename_i hgap
        obtain ⟨below, hend, h⟩ := Option.bind_eq_some_iff.1 h
        rw [if_pos hgap]
        exact hbelow hend h
      · rename_i hgap
        obtain ⟨⟨line, rest⟩, hline, h⟩ := Option.bind_eq_some_iff.1 h
        obtain ⟨ls₁, hlines, rfl⟩ := Option.map_eq_some_iff.1 h
        obtain ⟨below, hend, hlines⟩ := Option.bind_eq_some_iff.1 hlines
        rw [if_neg hgap, line?_above hline, Option.bind_some, hbelow hend hlines]
        rfl

end QueryCompiler.Toml
