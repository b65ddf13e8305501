import QueryCompiler.Proofs.Toml.LineEnd
import QueryCompiler.Toml.Quoted

/-!
# Texts, keys and line ends

A text between quotes may go over several lines, and one that is not closed can be closed further
down. So what is known here is less than of numbers, but enough: what is read is read the same when a
line end and more stand below, and with more fuel.

1. `newline?_above`, `skipBlankLines_above` and `skipLines_above`: the gaps end where they ended,
   unless they ran to the very end.
2. `readsAbove_basicText`, `readsAbove_longText` and `quoted?_above`: so do the texts.
3. `path?_above`: and the keys.
-/

namespace QueryCompiler.Toml

variable {cs rest tail : List Char} {fuel fuel' : Nat} {c : Char}

/-- What is read with some fuel is read the same with as much or more, when a line end and more
stand below. -/
def ReadsAbove {α : Type} (fuel : Nat) (read : Nat → List Char → Option (α × List Char)) : Prop :=
  ∀ ⦃cs a rest⦄, read fuel cs = some (a, rest) → ∀ ⦃fuel'⦄, fuel ≤ fuel' → ∀ tail,
    read fuel' (cs ++ '\n' :: tail) = some (a, rest ++ '\n' :: tail)

theorem StopsAtLineEnd.above {α : Type} {read : List Char → Option (α × List Char)} {a : α}
    (hr : StopsAtLineEnd read) (h : read cs = some (a, rest)) (tail : List Char) :
    read (cs ++ '\n' :: tail) = some (a, rest ++ '\n' :: tail) := by
  rw [hr, h]
  rfl

/-! ## Gaps -/

theorem skipSpace_lineEnd (cs tail : List Char) :
    skipSpace (cs ++ '\n' :: tail) = skipSpace cs ++ '\n' :: tail :=
  dropWhile_lineEnd rfl cs tail

theorem newline?_eq_some (h : newline? cs = some rest) :
    cs = '\n' :: rest ∨ cs = '\r' :: '\n' :: rest := by
  unfold newline? at h
  split at h
  · cases h
    exact .inl rfl
  · cases h
    exact .inr rfl
  · cases h

theorem newline?_above (h : newline? cs = some rest) (tail : List Char) :
    newline? (cs ++ '\n' :: tail) = some (rest ++ '\n' :: tail) := by
  rcases newline?_eq_some h with rfl | rfl <;> rfl

/-- Nothing, or half a line end: what may become a line end with one more line end below. -/
def IsOpen (cs : List Char) : Prop := cs = [] ∨ cs = ['\r']

theorem newline?_lineEnd (h : ¬ IsOpen cs) (tail : List Char) :
    newline? (cs ++ '\n' :: tail) = (newline? cs).map (· ++ '\n' :: tail) := by
  cases hline : newline? cs with
  | some rest => exact newline?_above hline tail
  | none =>
    rw [Option.map_none, Option.eq_none_iff_forall_ne_some]
    intro rest hbelow
    match cs, h with
    | [], h => exact h (.inl rfl)
    | [c], h =>
      rcases newline?_eq_some hbelow with heq | heq
      · obtain ⟨rfl, -⟩ := List.cons.inj heq
        cases hline
      · obtain ⟨rfl, -⟩ := List.cons.inj heq
        exact h (.inr rfl)
    | c₁ :: c₂ :: cs, _ =>
      rcases newline?_eq_some hbelow with heq | heq
      · obtain ⟨rfl, -⟩ := List.cons.inj heq
        cases hline
      · obtain ⟨rfl, hsecond⟩ := List.cons.inj heq
        obtain ⟨rfl, -⟩ := List.cons.inj hsecond
        cases hline

/-- Blanks and line ends stop at the character they stopped at. -/
theorem skipBlankLines_above (h : ¬ IsOpen (skipBlankLines cs)) (tail : List Char) :
    skipBlankLines (cs ++ '\n' :: tail) = skipBlankLines cs ++ '\n' :: tail := by
  fun_induction skipBlankLines cs with
  | case1 cs ih => rw [List.cons_append, List.cons_append, skipBlankLines, ih h]
  | case2 c cs hne hblank ih =>
    have hne' : ∀ cs', c = '\r' → cs ++ '\n' :: tail = '\n' :: cs' → False := by
      rintro cs' rfl -
      exact absurd hblank (by decide)
    rw [List.cons_append, skipBlankLines.eq_2 _ _ hne', if_pos hblank, ih h]
  | case3 c cs hne hblank =>
    have hne' : ∀ cs', c = '\r' → cs ++ '\n' :: tail = '\n' :: cs' → False := by
      rintro cs' rfl heq
      cases cs with
      | nil => exact h (.inr rfl)
      | cons c cs => exact hne cs rfl (congrArg (List.cons · cs) (List.cons.inj heq).1)
    rw [List.cons_append, skipBlankLines.eq_2 _ _ hne', if_neg hblank]
  | case4 => exact absurd (.inl rfl) h

/-- The first character of what is not a gap. -/
def IsSolid (c : Char) : Prop := isSpace c = false ∧ c ≠ '\n' ∧ c ≠ '\r' ∧ c ≠ '#'

instance : DecidablePred IsSolid := fun _ => inferInstanceAs (Decidable (_ ∧ _))

theorem skipBlankLines_of_solid (hc : IsSolid c) (cs : List Char) :
    skipBlankLines (c :: cs) = c :: cs := by
  rw [skipBlankLines.eq_2 _ _ fun _ h' _ => hc.2.2.1 h', if_neg]
  simp [hc.1, hc.2.1]

theorem skipLines_of_solid (hc : IsSolid c) (fuel : Nat) (cs : List Char) :
    skipLines fuel (c :: cs) = c :: cs := by
  cases fuel with
  | zero => rfl
  | succ fuel =>
    rw [skipLines, skipBlankLines_of_solid hc]
    split
    · rename_i h
      exact absurd (List.cons.inj h).1 hc.2.2.2
    · rfl

theorem skipLines_above (h : skipLines fuel cs = c :: rest) (hc : IsSolid c) (hf : fuel ≤ fuel')
    (tail : List Char) : skipLines fuel' (cs ++ '\n' :: tail) = c :: rest ++ '\n' :: tail := by
  induction fuel generalizing fuel' cs with
  | zero =>
    cases h
    exact skipLines_of_solid hc fuel' _
  | succ fuel ih =>
    obtain ⟨fuel', rfl⟩ := Nat.exists_eq_add_of_lt hf
    rw [skipLines] at h
    split at h
    · rename_i comment hcomment
      rw [skipLines, skipBlankLines_above (by simp [hcomment, IsOpen]), hcomment]
      simp only [List.cons_append, dropWhile_lineEnd (p := isVisible) rfl]
      exact ih h (by omega)
    · rename_i hne
      rw [skipLines, skipBlankLines_above (by simp [h, IsOpen, hc.2.2.1]), h]
      split
      · rename_i heq
        exact absurd (List.cons.inj heq).1 hc.2.2.2
      · rfl

/-! ## Texts -/

theorem code?_above {width : Nat} {r : Char} (h : escape?.code? width cs = some (r, rest))
    (tail : List Char) :
    escape?.code? width (cs ++ '\n' :: tail) = some (r, rest ++ '\n' :: tail) := by
  unfold escape?.code? at h
  split at h
  · cases h
  · rename_i hlength
    have hle : width ≤ cs.length := Nat.le_of_not_lt hlength
    simp only [Option.bind_eq_bind, Option.bind_eq_some_iff] at h
    obtain ⟨n, hn, r', hr, h⟩ := h
    cases h
    rw [escape?.code?, if_neg (by rw [List.length_append]; omega), List.take_append_of_le_length hle,
      List.drop_append_of_le_length hle, hn, Option.bind_eq_bind, Option.bind_some, hr]
    rfl

theorem escape?_above {r : Char} (h : escape? cs = some (r, rest)) (tail : List Char) :
    escape? (cs ++ '\n' :: tail) = some (r, rest ++ '\n' :: tail) := by
  unfold escape? at h
  split at h
  case h_8 => exact code?_above h tail
  case h_9 => exact code?_above h tail
  case h_10 => cases h
  all_goals
    cases h
    rfl

theorem readsAbove_basicText (fuel : Nat) : ReadsAbove fuel basicText := by
  induction fuel with
  | zero => exact fun _ _ _ h => nomatch h
  | succ fuel ih =>
    intro cs body rest h fuel' hf tail
    obtain ⟨fuel', rfl⟩ := Nat.exists_eq_add_of_lt hf
    unfold basicText at h
    split at h
    · cases h
      rfl
    · simp only [Option.bind_eq_bind, Option.bind_eq_some_iff] at h
      obtain ⟨⟨r, cs₁⟩, hescape, ⟨body', rest'⟩, hbody, h⟩ := h
      cases h
      simp only [List.cons_append, basicText, escape?_above hescape tail, Option.bind_eq_bind,
        Option.bind_some, ih hbody (Nat.le_add_right fuel fuel') tail]
      rfl
    · rename_i c cs₁ hquote hescape
      split at h
      · rename_i hc
        simp only [Option.bind_eq_bind, Option.bind_eq_some_iff] at h
        obtain ⟨⟨body', rest'⟩, hbody, h⟩ := h
        cases h
        rw [List.cons_append, basicText, if_pos hc,
          ih hbody (by omega) tail]
        · rfl
        · exact hquote
        · exact hescape
      · cases h
    · cases h

theorem literalText_above {body : List Char} (h : literalText cs = some (body, rest))
    (tail : List Char) : literalText (cs ++ '\n' :: tail) = some (body, rest ++ '\n' :: tail) := by
  fun_induction literalText cs generalizing body with
  | case1 cs =>
    cases h
    rfl
  | case2 c cs hquote hc ih =>
    simp only [Option.bind_eq_bind, Option.bind_eq_some_iff] at h
    obtain ⟨⟨body', rest'⟩, hbody, h⟩ := h
    cases h
    rw [List.cons_append, literalText, if_pos hc, ih hbody]
    · rfl
    · exact hquote
  | case3 => cases h
  | case4 => cases h

/-- What an escape begins with is neither a blank nor a line end. -/
theorem continuation?_of_escape? {r : Char} (h : escape? cs = some (r, rest)) :
    continuation? cs = none := by
  unfold escape? at h
  split at h
  case h_10 => cases h
  all_goals rfl

theorem continuation?_above (h : continuation? cs = some rest) (hrest : ¬ IsOpen rest)
    (tail : List Char) :
    continuation? (cs ++ '\n' :: tail) = some (rest ++ '\n' :: tail) := by
  simp only [continuation?, Option.map_eq_some_iff] at h
  obtain ⟨cs', hline, rfl⟩ := h
  rw [continuation?, skipSpace_lineEnd, newline?_above hline, Option.map_some,
    skipBlankLines_above hrest]

theorem not_isOpen_of_longText {quote : Char} {escapes : Bool} {body : List Char}
    (hq : quote ≠ '\r') (h : longText quote escapes fuel cs = some (body, rest)) :
    ¬ IsOpen cs := by
  cases fuel with
  | zero => cases h
  | succ fuel =>
    rintro (rfl | rfl)
    · cases h
    · rw [longText, if_neg (Ne.symm hq), if_neg (by simp)] at h
      cases h

theorem quoteRun_lineEnd {quote : Char} (hq : quote ≠ '\n') (cs tail : List Char) :
    quoteRun quote (cs ++ '\n' :: tail)
      = ((quoteRun quote cs).1, (quoteRun quote cs).2 ++ '\n' :: tail) := by
  have hp : decide ('\n' = quote) = false := decide_eq_false (Ne.symm hq)
  rw [quoteRun, takeWhile_lineEnd hp, dropWhile_lineEnd hp]
  rfl

theorem readsAbove_longText {quote : Char} {escapes : Bool} (hr : quote ≠ '\r')
    (hn : quote ≠ '\n') (fuel : Nat) : ReadsAbove fuel (longText quote escapes) := by
  induction fuel with
  | zero => exact fun _ _ _ h => nomatch h
  | succ fuel ih =>
    intro cs body rest h fuel' hf tail
    obtain ⟨fuel', rfl⟩ := Nat.exists_eq_add_of_lt hf
    have hle : fuel ≤ fuel + fuel' := Nat.le_add_right fuel fuel'
    have hopen := not_isOpen_of_longText hr h
    cases cs with
    | nil => cases h
    | cons c cs =>
      rw [longText] at h
      rw [List.cons_append, longText, ← List.cons_append, quoteRun_lineEnd hn,
        newline?_lineEnd hopen]
      split at h
      · rename_i hquote
        rw [if_pos hquote]
        simp only at h ⊢
        split at h
        · rename_i hrun
          simp only [Option.bind_eq_bind, Option.bind_eq_some_iff] at h
          obtain ⟨⟨body', rest'⟩, hbody, h⟩ := h
          cases h
          rw [if_pos hrun, ih hbody hle]
          rfl
        · rename_i hrun
          rw [if_neg hrun]
          split at h
          · rename_i hend
            cases h
            rw [if_pos hend]
          · cases h
      · rename_i hquote
        rw [if_neg hquote]
        split at h
        · rename_i hback
          rw [if_pos hback]
          split at h
          · rename_i cs' hline
            rw [continuation?_above hline (not_isOpen_of_longText hr h)]
            exact ih h hle tail
          · simp only [Option.bind_eq_bind, Option.bind_eq_some_iff] at h
            obtain ⟨⟨r, cs'⟩, hescape, ⟨body', rest'⟩, hbody, h⟩ := h
            cases h
            have hescape' := escape?_above hescape tail
            rw [continuation?_of_escape? hescape', hescape']
            simp only [Option.bind_eq_bind, Option.bind_some, ih hbody hle]
            rfl
        · rename_i hback
          rw [if_neg hback]
          split at h
          · rename_i cs' hline
            simp only [Option.bind_eq_bind, Option.bind_eq_some_iff] at h
            obtain ⟨⟨body', rest'⟩, hbody, h⟩ := h
            cases h
            simp only [hline, Option.map_some, ih hbody hle, Option.bind_eq_bind,
              Option.bind_some]
            rfl
          · rename_i hline
            split at h
            · rename_i hc
              simp only [Option.bind_eq_bind, Option.bind_eq_some_iff] at h
              obtain ⟨⟨body', rest'⟩, hbody, h⟩ := h
              cases h
              simp only [hline, Option.map_none, if_pos hc, ih hbody hle, Option.bind_eq_bind,
                Option.bind_some]
              rfl
            · cases h

theorem isPrefixOf_lineEnd {w : List Char} (hw : '\n' ∉ w) (cs tail : List Char) :
    w.isPrefixOf (cs ++ '\n' :: tail) = w.isPrefixOf cs := by
  rw [Bool.eq_iff_iff, List.isPrefixOf_iff_prefix, List.isPrefixOf_iff_prefix]
  constructor
  · rintro ⟨rest, h⟩
    obtain ⟨rest', rfl, -⟩ := eq_append_of_lineEnd h.symm hw
    exact List.prefix_append ..
  · exact fun h => h.trans (List.prefix_append ..)

theorem quoted?_eq (quote : Char) (cs : List Char) : quoted? quote cs =
    (if [quote, quote].isPrefixOf cs then
      longText quote (quote = '"') (cs.length + 1) ((newline? (cs.drop 2)).getD (cs.drop 2))
    else if quote = '"' then basicText (cs.length + 1) cs
    else literalText cs).map fun r => (String.ofList r.1, r.2) := by
  simp only [quoted?, Option.map_eq_bind]
  split
  · rfl
  · split <;> rfl

theorem quoted?_above {quote : Char} {body : String} (hquote : quote = '"' ∨ quote = '\'')
    (h : quoted? quote cs = some (body, rest)) (tail : List Char) :
    quoted? quote (cs ++ '\n' :: tail) = some (body, rest ++ '\n' :: tail) := by
  have hr : quote ≠ '\r' := by rcases hquote with rfl | rfl <;> decide
  have hn : quote ≠ '\n' := by rcases hquote with rfl | rfl <;> decide
  have hfuel : cs.length + 1 ≤ (cs ++ '\n' :: tail).length + 1 := by simp
  rw [quoted?_eq] at h
  obtain ⟨⟨body', rest'⟩, hread, h⟩ := Option.map_eq_some_iff.1 h
  cases h
  rw [quoted?_eq, Option.map_eq_some_iff]
  refine ⟨(body', rest' ++ '\n' :: tail), ?_, rfl⟩
  rw [isPrefixOf_lineEnd (by simp [Ne.symm hn])]
  split at hread
  · rename_i hthree
    obtain ⟨inner, rfl⟩ := List.isPrefixOf_iff_prefix.1 hthree
    rw [if_pos hthree]
    simp only [List.cons_append, List.nil_append, List.drop_succ_cons, List.drop_zero] at hread ⊢
    cases hline : newline? inner with
    | some inner' =>
      rw [hline, Option.getD_some] at hread
      rw [newline?_above hline, Option.getD_some]
      exact readsAbove_longText hr hn _ hread (by simp) tail
    | none =>
      rw [hline, Option.getD_none] at hread
      rw [newline?_lineEnd (not_isOpen_of_longText hr hread), hline, Option.map_none,
        Option.getD_none]
      exact readsAbove_longText hr hn _ hread (by simp) tail
  · rename_i hthree
    rw [if_neg hthree]
    split at hread
    · rename_i hescapes
      rw [if_pos hescapes]
      exact readsAbove_basicText _ hread hfuel tail
    · rename_i hescapes
      rw [if_neg hescapes]
      exact literalText_above hread tail

/-! ## Keys -/

theorem key?_above {k : String} (h : key? cs = some (k, rest)) (tail : List Char) :
    key? (cs ++ '\n' :: tail) = some (k, rest ++ '\n' :: tail) := by
  unfold key? at h
  split at h
  · rename_i cs'
    obtain ⟨⟨body, rest'⟩, hbody, h⟩ := Option.map_eq_some_iff.1 h
    cases h
    rw [List.cons_append, key?, readsAbove_basicText _ hbody (by simp) tail]
    rfl
  · obtain ⟨⟨body, rest'⟩, hbody, h⟩ := Option.map_eq_some_iff.1 h
    cases h
    rw [List.cons_append, key?, literalText_above hbody tail]
    rfl
  · rename_i hbasic hliteral
    split at h
    · cases h
    · rename_i hbare
      cases h
      rw [key?, takeWhile_lineEnd rfl, dropWhile_lineEnd rfl, if_neg hbare]
      · exact fun cs' => ne_append_of_lineEnd (w := ['"']) (by decide) hbasic cs'
      · exact fun cs' => ne_append_of_lineEnd (w := ['\'']) (by decide) hliteral cs'

theorem keys?_above {ks : List String} (h : keys? fuel cs = some (ks, rest)) (tail : List Char) :
    keys? fuel (cs ++ '\n' :: tail) = some (ks, rest ++ '\n' :: tail) := by
  induction fuel generalizing cs ks with
  | zero => cases h
  | succ fuel ih =>
    simp only [keys?, Option.bind_eq_bind, Option.bind_eq_some_iff] at h
    obtain ⟨⟨k, rest'⟩, hkey, h⟩ := h
    rw [keys?, skipSpace_lineEnd, key?_above hkey]
    simp only [Option.bind_eq_bind, Option.bind_some, skipSpace_lineEnd]
    split at h
    · rename_i rest'' hpoint
      obtain ⟨⟨ks', rest₃⟩, hkeys, h⟩ := Option.bind_eq_some_iff.1 h
      cases h
      simp only [hpoint, List.cons_append, ih hkeys]
      rfl
    · rename_i hpoint
      cases h
      split
      · rename_i heq
        exact absurd heq (ne_append_of_lineEnd (w := ['.']) (by decide) hpoint _)
      · rfl

theorem path?_above {ks : List String} (h : path? cs = some (ks, rest)) (tail : List Char) :
    path? (cs ++ '\n' :: tail) = some (ks, rest ++ '\n' :: tail) :=
  keys?_above h tail

end QueryCompiler.Toml
