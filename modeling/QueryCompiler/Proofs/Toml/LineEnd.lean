import QueryCompiler.Proofs.Text.Longest
import QueryCompiler.Toml.Number

/-!
# Numbers and line ends

The number or date-time at the end of a text is read the same with a line end behind it, whatever
comes below. A number is tried as one thing after the other, so this has to be known of attempts that
fail as well as of those that succeed: `StopsAtLineEnd` says both.

1. `eq_append_of_lineEnd`: what has no line end in it lies above the first one.
2. `takes_of_words` and `skips_of_words`: so a reader of words of a fixed form stops, and dates, times
   and zones are read by such.
3. `moreDigits_lineEnd`: a run of digits stops.

Main statement: `stops_number?`.
-/

namespace QueryCompiler.Toml

open Decimal Text

variable {α : Type} {cs tail : List Char}

/-- A line end and what is below it change neither what a reader gives nor whether it does. -/
def StopsAtLineEnd (read : List Char → Option (α × List Char)) : Prop :=
  ∀ cs tail, read (cs ++ '\n' :: tail) = (read cs).map fun r => (r.1, r.2 ++ '\n' :: tail)

theorem StopsAtLineEnd.bind {β : Type} {read : List Char → Option (α × List Char)}
    (h : StopsAtLineEnd read) {next : α × List Char → Option (β × List Char)}
    (hnext : ∀ a rest tail, next (a, rest ++ '\n' :: tail)
      = (next (a, rest)).map fun r => (r.1, r.2 ++ '\n' :: tail)) :
    StopsAtLineEnd fun cs => (read cs).bind next := by
  intro cs tail
  simp only [h cs tail]
  cases read cs with
  | none => rfl
  | some r => exact hnext r.1 r.2 tail

/-! ## Runs and words -/

theorem takeWhile_lineEnd {p : Char → Bool} (hp : p '\n' = false) (cs tail : List Char) :
    (cs ++ '\n' :: tail).takeWhile p = cs.takeWhile p :=
  takeWhile_before (fun _ hc => Option.some.inj hc ▸ hp) cs

theorem dropWhile_lineEnd {p : Char → Bool} (hp : p '\n' = false) (cs tail : List Char) :
    (cs ++ '\n' :: tail).dropWhile p = cs.dropWhile p ++ '\n' :: tail :=
  dropWhile_before (fun _ hc => Option.some.inj hc ▸ hp) cs

/-- A word without line ends that begins a text is above the first line end. -/
theorem eq_append_of_lineEnd {w rest : List Char} (h : cs ++ '\n' :: tail = w ++ rest)
    (hw : '\n' ∉ w) : ∃ rest', cs = w ++ rest' ∧ rest = rest' ++ '\n' :: tail := by
  rcases List.append_eq_append_iff.1 h with ⟨as, rfl, hbelow⟩ | ⟨bs, rfl, hrest⟩
  · cases as with
    | nil => exact ⟨[], by simp, by simpa using hbelow.symm⟩
    | cons a as =>
      obtain ⟨rfl, -⟩ := List.cons.inj hbelow
      exact absurd (List.mem_append_right _ List.mem_cons_self) hw
  · exact ⟨bs, rfl, hrest⟩

theorem ne_append_of_lineEnd {w : List Char} (hw : '\n' ∉ w) (h : ∀ rest, cs ≠ w ++ rest)
    (rest : List Char) : cs ++ '\n' :: tail ≠ w ++ rest := by
  intro heq
  obtain ⟨rest', hcs, -⟩ := eq_append_of_lineEnd heq hw
  exact h rest' hcs

/-- A reader that takes a word without line ends off the front, and then skips what it may. -/
theorem takes_of_words {take : List Char → Option (List Char)} {skip : List Char → List Char}
    (htake : ∀ cs rest, take cs = some rest → ∃ w cs', '\n' ∉ w ∧ cs = w ++ cs' ∧ rest = skip cs' ∧
      ∀ below, take (w ++ below) = some (skip below))
    (hskip : ∀ cs tail, skip (cs ++ '\n' :: tail) = skip cs ++ '\n' :: tail)
    (cs tail : List Char) :
    take (cs ++ '\n' :: tail) = (take cs).map (· ++ '\n' :: tail) := by
  refine Option.ext fun rest => ?_
  rw [Option.map_eq_some_iff]
  constructor
  · intro h
    obtain ⟨w, cs', hw, hcs, rfl, hread⟩ := htake _ _ h
    obtain ⟨rest', rfl, rfl⟩ := eq_append_of_lineEnd hcs hw
    exact ⟨skip rest', hread rest', (hskip _ _).symm⟩
  · rintro ⟨rest', h, rfl⟩
    obtain ⟨w, cs', hw, rfl, rfl, hread⟩ := htake _ _ h
    rw [List.append_assoc, hread, hskip]

/-- A reader that takes a word without line ends off the front, if there is one. -/
theorem skips_of_words {skip : List Char → List Char}
    (h : ∀ cs, skip cs = cs ∨
      ∃ w rest, '\n' ∉ w ∧ cs = w ++ rest ∧ ∀ below, skip (w ++ below) = below)
    (cs tail : List Char) : skip (cs ++ '\n' :: tail) = skip cs ++ '\n' :: tail := by
  have hword {w rest : List Char} (hcs : cs = w ++ rest)
      (hread : ∀ below, skip (w ++ below) = below) :
      skip (cs ++ '\n' :: tail) = skip cs ++ '\n' :: tail := by
    rw [hcs, List.append_assoc, hread, hread]
  rcases h cs with hkeep | ⟨w, rest, -, hcs, hread⟩
  · rcases h (cs ++ '\n' :: tail) with hkeep' | ⟨w, rest, hw, hcs, hread⟩
    · rw [hkeep, hkeep']
    · obtain ⟨rest', hcs, -⟩ := eq_append_of_lineEnd hcs hw
      exact hword hcs hread
  · exact hword hcs hread

/-! ## Date-times -/

theorem isDigit_of_twoDigits? {a b : Char} {low high n : Nat}
    (h : twoDigits? a b low high = some n) : isDigit a = true ∧ isDigit b = true := by
  simp only [twoDigits?] at h
  split at h
  · rename_i hd
    simp only [Bool.and_eq_true] at hd
    exact hd.1.1
  · cases h

theorem ne_lineEnd_of_isDigit {c : Char} (h : isDigit c = true) : '\n' ≠ c := by
  rintro rfl
  cases h

theorem date?_lineEnd (cs tail : List Char) :
    date? (cs ++ '\n' :: tail) = (date? cs).map (· ++ '\n' :: tail) := by
  refine @takes_of_words date? id (fun cs rest h => ?_) (fun _ _ => rfl) cs tail
  unfold date? at h
  split at h
  · rename_i y₁ y₂ y₃ y₄ m₁ m₂ d₁ d₂ rest'
    split at h
    · rename_i hyear
      simp only [Option.bind_eq_bind, Option.bind_eq_some_iff] at h
      obtain ⟨month, hmonth, day, hday, h⟩ := h
      cases h
      refine ⟨[y₁, y₂, y₃, y₄, '-', m₁, m₂, '-', d₁, d₂], rest, ?_, rfl, rfl, fun below => ?_⟩
      · obtain ⟨hm₁, hm₂⟩ := isDigit_of_twoDigits? hmonth
        obtain ⟨hd₁, hd₂⟩ := isDigit_of_twoDigits? hday
        simp only [List.all_cons, List.all_nil, Bool.and_true, Bool.and_eq_true] at hyear
        obtain ⟨hy₁, hy₂, hy₃, hy₄⟩ := hyear
        simp [ne_lineEnd_of_isDigit, *]
      · simp [date?, hyear, hmonth, hday]
    · cases h
  · cases h

theorem digitsOf_lineEnd (cs tail : List Char) :
    digitsOf (cs ++ '\n' :: tail) = digitsOf cs :=
  takeWhile_lineEnd rfl cs tail

theorem afterDigits_lineEnd (cs tail : List Char) :
    afterDigits (cs ++ '\n' :: tail) = afterDigits cs ++ '\n' :: tail :=
  dropWhile_lineEnd rfl cs tail

theorem skipFraction_of_ne (h : ∀ cs', cs ≠ ['.'] ++ cs') : skipFraction cs = cs := by
  unfold skipFraction
  split
  · exact absurd rfl (h _)
  · rfl

theorem skipFraction_lineEnd (cs tail : List Char) :
    skipFraction (cs ++ '\n' :: tail) = skipFraction cs ++ '\n' :: tail := by
  by_cases hpoint : ∃ cs', cs = ['.'] ++ cs'
  · obtain ⟨cs', rfl⟩ := hpoint
    simp only [List.cons_append, skipFraction, digitsOf_lineEnd,
      afterDigits_lineEnd]
    split <;> rfl
  · rw [not_exists] at hpoint
    rw [skipFraction_of_ne hpoint, skipFraction_of_ne (ne_append_of_lineEnd (by decide) hpoint)]

theorem time?_lineEnd (cs tail : List Char) :
    time? (cs ++ '\n' :: tail) = (time? cs).map (· ++ '\n' :: tail) := by
  refine takes_of_words (fun cs rest h => ?_) skipFraction_lineEnd cs tail
  unfold time? at h
  split at h
  · rename_i h₁ h₂ m₁ m₂ s₁ s₂ cs'
    simp only [Option.bind_eq_bind, Option.bind_eq_some_iff] at h
    obtain ⟨hour, hhour, minute, hminute, second, hsecond, h⟩ := h
    cases h
    refine ⟨[h₁, h₂, ':', m₁, m₂, ':', s₁, s₂], cs', ?_, rfl, rfl, fun below => ?_⟩
    · obtain ⟨hh₁, hh₂⟩ := isDigit_of_twoDigits? hhour
      obtain ⟨hm₁, hm₂⟩ := isDigit_of_twoDigits? hminute
      obtain ⟨hs₁, hs₂⟩ := isDigit_of_twoDigits? hsecond
      simp [ne_lineEnd_of_isDigit, *]
    · simp [time?, hhour, hminute, hsecond]
  · cases h

theorem skipZone_lineEnd (cs tail : List Char) :
    skipZone (cs ++ '\n' :: tail) = skipZone cs ++ '\n' :: tail := by
  refine skips_of_words (fun cs => ?_) cs tail
  unfold skipZone
  split
  · exact .inr ⟨['Z'], _, by decide, rfl, fun _ => rfl⟩
  · exact .inr ⟨['z'], _, by decide, rfl, fun _ => rfl⟩
  · rename_i sign h₁ h₂ m₁ m₂ rest _ _
    split
    · rename_i hzone
      have hparts := hzone
      simp only [Bool.and_eq_true, Bool.or_eq_true, decide_eq_true_eq,
        Option.isSome_iff_exists] at hparts
      obtain ⟨⟨hsign, hour, hhour⟩, minute, hminute⟩ := hparts
      obtain ⟨hh₁, hh₂⟩ := isDigit_of_twoDigits? hhour
      obtain ⟨hm₁, hm₂⟩ := isDigit_of_twoDigits? hminute
      refine .inr ⟨[sign, h₁, h₂, ':', m₁, m₂], rest, ?_, rfl, fun below => ?_⟩
      · rcases hsign with rfl | rfl <;> simp [ne_lineEnd_of_isDigit, *]
      · rcases hsign with rfl | rfl <;> exact if_pos hzone
    · exact .inl rfl
  · exact .inl rfl

theorem afterDateTime?_lineEnd (cs tail : List Char) :
    afterDateTime? (cs ++ '\n' :: tail) = (afterDateTime? cs).map (· ++ '\n' :: tail) := by
  simp only [afterDateTime?, date?_lineEnd, time?_lineEnd]
  cases date? cs with
  | none => rfl
  | some rest =>
    cases rest with
    | nil => simp
    | cons c rest =>
      simp only [Option.map_some, List.cons_append, time?_lineEnd]
      split
      · cases time? rest with
        | none => rfl
        | some rest' => simp only [Option.map_some, skipZone_lineEnd]
      · rfl

theorem stops_dateTime? : StopsAtLineEnd dateTime? := by
  intro cs tail
  simp only [dateTime?, afterDateTime?_lineEnd, Option.map_map]
  cases h : afterDateTime? cs with
  | none => rfl
  | some rest =>
    have hle : cs.length - rest.length ≤ cs.length := Nat.sub_le ..
    have hlength : (cs ++ '\n' :: tail).length - (rest ++ '\n' :: tail).length
        = cs.length - rest.length := by
      rw [List.length_append, List.length_append, Nat.add_sub_add_right]
    simp only [Option.map_some, Function.comp_apply, hlength, List.take_append_of_le_length hle]

/-! ## Digits -/

theorem signOf_lineEnd (cs tail : List Char) : signOf (cs ++ '\n' :: tail) = signOf cs := by
  cases cs <;> rfl

theorem drop_signOf_lineEnd (cs tail : List Char) :
    (cs ++ '\n' :: tail).drop (signOf cs).length
      = cs.drop (signOf cs).length ++ '\n' :: tail := by
  refine List.drop_append_of_le_length ?_
  cases cs with
  | nil => exact Nat.le_refl 0
  | cons c cs =>
    simp only [signOf]
    split <;> simp

theorem moreDigits_lineEnd {p : Char → Bool} (hp : p '\n' = false) (hlow : p '_' = false)
    (cs tail : List Char) : moreDigits p (cs ++ '\n' :: tail)
      = ((moreDigits p cs).1, (moreDigits p cs).2 ++ '\n' :: tail) := by
  fun_induction moreDigits p cs with
  | case1 c cs hc ih => simp [moreDigits, hc, ih]
  | case2 c cs hc => simp [moreDigits, hc]
  | case3 c cs hne hc ih =>
    rw [List.cons_append, moreDigits, if_pos hc, ih]
    rintro c' cs' rfl
    exact absurd hc (by simp [hlow])
  | case4 c cs hne hc =>
    by_cases hc' : c = '_'
    · subst hc'
      cases cs with
      | nil => simp [moreDigits, hp]
      | cons c' cs' => exact absurd rfl (hne c' cs' rfl)
    · rw [List.cons_append, moreDigits, if_neg hc]
      exact fun _ _ h => absurd h hc'
  | case5 => simp [moreDigits, hp]

theorem stops_grouped? {p : Char → Bool} (hp : p '\n' = false) (hlow : p '_' = false) :
    StopsAtLineEnd (grouped? p) := by
  intro cs tail
  cases cs with
  | nil => simp [grouped?, hp]
  | cons c cs =>
    have hmore := moreDigits_lineEnd hp hlow (c :: cs) tail
    rw [List.cons_append] at hmore
    simp only [grouped?, List.cons_append, hmore]
    split <;> rfl

theorem stops_digits : StopsAtLineEnd (grouped? isDigit) := stops_grouped? rfl rfl

/-! ## Numbers -/

theorem whole?_of_ne (h : ∀ cs', cs ≠ ['0'] ++ cs') : whole? cs = grouped? isDigit cs := by
  unfold whole?
  split
  · exact absurd rfl (h _)
  · rfl

theorem stops_whole? : StopsAtLineEnd whole? := by
  intro cs tail
  by_cases hzero : ∃ cs', cs = ['0'] ++ cs'
  · obtain ⟨cs', rfl⟩ := hzero
    rfl
  · rw [not_exists] at hzero
    rw [whole?_of_ne hzero, whole?_of_ne (ne_append_of_lineEnd (by decide) hzero), stops_digits]

theorem stops_hexDigits (base : Nat) :
    StopsAtLineEnd (grouped? fun c => (Text.hexValue? c).any (· < base)) := by
  have hline : Text.hexValue? '\n' = none := by decide
  have hlow : Text.hexValue? '_' = none := by decide
  refine stops_grouped? ?_ ?_
  · simp only [hline, Option.any_none]
  · simp only [hlow, Option.any_none]

theorem stops_based? (base : Nat) : StopsAtLineEnd (based? base) := by
  refine (stops_hexDigits base).bind fun ds rest tail => ?_
  dsimp only
  -- The range of words is no matter here, and too large to be evaluated.
  generalize ds.foldl _ 0 = n
  generalize word? (n : Int) = w
  cases w <;> rfl

theorem stops_exponent? : StopsAtLineEnd exponent? := by
  intro cs tail
  cases cs with
  | nil => rfl
  | cons c cs =>
    simp only [List.cons_append, exponent?, signOf_lineEnd, drop_signOf_lineEnd, stops_digits _ tail]
    split
    · cases grouped? isDigit (cs.drop (signOf cs).length) <;> rfl
    · rfl

theorem fraction?_of_ne (h : ∀ cs', cs ≠ ['.'] ++ cs') : fraction? cs = none := by
  unfold fraction?
  split
  · exact absurd rfl (h _)
  · rfl

theorem stops_fraction? : StopsAtLineEnd fraction? := by
  intro cs tail
  by_cases hpoint : ∃ cs', cs = ['.'] ++ cs'
  · obtain ⟨cs', rfl⟩ := hpoint
    simp only [List.cons_append, fraction?, stops_digits _ tail,
      Option.map_map]
    rfl
  · rw [not_exists] at hpoint
    rw [fraction?_of_ne hpoint, fraction?_of_ne (ne_append_of_lineEnd (by decide) hpoint)]
    rfl

theorem map_ofNumeral? (n : Numeral) (rest tail : List Char) :
    ((ofNumeral? n).bind fun t => pure (t, rest ++ '\n' :: tail))
      = ((ofNumeral? n).bind fun t => pure (t, rest)).map fun r => (r.1, r.2 ++ '\n' :: tail) := by
  cases ofNumeral? n <;> rfl

theorem stops_decimal? : StopsAtLineEnd decimal? := by
  intro cs tail
  simp only [decimal?, signOf_lineEnd, drop_signOf_lineEnd, stops_whole? _ tail]
  cases whole? (cs.drop (signOf cs).length) with
  | none => rfl
  | some r =>
    simp only [Option.map_some, Option.bind_eq_bind, Option.bind_some, stops_fraction? _ tail]
    cases fraction? r.2 with
    | none =>
      simp only [Option.map_none, stops_exponent? _ tail]
      cases exponent? r.2 with
      | none => rfl
      | some e => exact map_ofNumeral? _ e.2 tail
    | some f =>
      simp only [Option.map_some, stops_exponent? _ tail]
      cases exponent? f.2 with
      | none => exact map_ofNumeral? _ f.2 tail
      | some e => exact map_ofNumeral? _ e.2 tail

theorem stops_special? : StopsAtLineEnd special? := by
  intro cs tail
  simp only [special?, signOf_lineEnd, drop_signOf_lineEnd]
  generalize cs.drop (signOf cs).length = body
  by_cases hinf : ∃ rest, body = ['i', 'n', 'f'] ++ rest
  · obtain ⟨rest, rfl⟩ := hinf
    rfl
  by_cases hnan : ∃ rest, body = ['n', 'a', 'n'] ++ rest
  · obtain ⟨rest, rfl⟩ := hnan
    rfl
  rw [not_exists] at hinf hnan
  have hinf' : ∀ rest, body ++ '\n' :: tail ≠ ['i', 'n', 'f'] ++ rest :=
    ne_append_of_lineEnd (by decide) hinf
  have hnan' : ∀ rest, body ++ '\n' :: tail ≠ ['n', 'a', 'n'] ++ rest :=
    ne_append_of_lineEnd (by decide) hnan
  split
  · exact absurd ‹_› (hinf' _)
  · exact absurd ‹_› (hnan' _)
  · split
    · exact absurd rfl (hinf _)
    · exact absurd rfl (hnan _)
    · rfl

theorem stops_integer? : StopsAtLineEnd Toml.integer? := by
  intro cs tail
  simp only [Toml.integer?, signOf_lineEnd, drop_signOf_lineEnd, stops_whole? _ tail]
  cases whole? (cs.drop (signOf cs).length) with
  | none => rfl
  | some r =>
    simp only [Option.map_some, Option.bind_eq_bind, Option.bind_some]
    generalize word? (integer (signOf cs) r.1) = w
    cases w <;> rfl

/-- A date-time or a number is read up to the end of its line at most. -/
theorem stops_number? : StopsAtLineEnd number? := by
  intro cs tail
  unfold number?
  rw [stops_dateTime?, stops_decimal?, stops_special?]
  cases dateTime? cs with
  | some r => rfl
  | none =>
    cases decimal? cs with
    | some r => rfl
    | none =>
      cases special? cs with
      | some r => rfl
      | none =>
        simp only [Option.map_none, Option.orElse_none]
        by_cases hx : ∃ rest, cs = ['0', 'x'] ++ rest
        · obtain ⟨rest, rfl⟩ := hx
          exact stops_based? 16 rest tail
        by_cases ho : ∃ rest, cs = ['0', 'o'] ++ rest
        · obtain ⟨rest, rfl⟩ := ho
          exact stops_based? 8 rest tail
        by_cases hb : ∃ rest, cs = ['0', 'b'] ++ rest
        · obtain ⟨rest, rfl⟩ := hb
          exact stops_based? 2 rest tail
        rw [not_exists] at hx ho hb
        split
        · exact absurd ‹_› (ne_append_of_lineEnd (w := ['0', 'x']) (by decide) hx _)
        · exact absurd ‹_› (ne_append_of_lineEnd (w := ['0', 'o']) (by decide) ho _)
        · exact absurd ‹_› (ne_append_of_lineEnd (w := ['0', 'b']) (by decide) hb _)
        · rw [stops_integer?]
          split
          · exact absurd rfl (hx _)
          · exact absurd rfl (ho _)
          · exact absurd rfl (hb _)
          · rfl

end QueryCompiler.Toml
