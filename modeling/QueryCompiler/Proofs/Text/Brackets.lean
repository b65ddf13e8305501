import QueryCompiler.Proofs.Text.Quoting

/-!
# Brackets outside literals

Of the brackets in a text only those count that a scanner meets outside literals. `Mode.visible`
keeps the characters outside, and `openAfter` goes through brackets with the number of those that
are open.

1. `visible_append`: what is visible of two texts in a row, if the first one closes its literals.
2. `openAfter_append` and `openAfter_add`: texts in a row, and brackets around a text.
3. `count_of_openAfter` and `count_le_of_openAfter`: what this says in terms of how often the two
   brackets occur, in all of a text and in each part from its start.
-/

namespace QueryCompiler.Text

namespace Mode

/-! ## Characters outside literals -/

/-- The characters of a text outside literals. The quote that opens a literal is still outside. -/
def visible (m : Mode) : List Char → List Char
  | [] => []
  | c :: cs => if m.inLiteral then (m.next c).visible cs else c :: (m.next c).visible cs

variable {m : Mode} {cs cs' : List Char}

/-- A scanner behind a literal goes on like one that has seen none. -/
theorem next_eq_start (hm : m.inLiteral = false) (c : Char) : m.next c = start c := by
  cases m with
  | outside => rfl
  | inside quote | escaped quote => cases hm
  | closed quote =>
    show (if _ then _ else _) = _
    by_cases hc : Quote.ofChar? c = some quote
    · rw [if_pos hc, start, hc]
    · rw [if_neg hc]

theorem inLiteral_scan_congr (hm : m.inLiteral = false) :
    (m.scan cs).inLiteral = (outside.scan cs).inLiteral := by
  cases cs with
  | nil => exact hm
  | cons c cs => rw [scan_cons, scan_cons, next_eq_start hm, next_eq_start rfl]

theorem visible_congr (hm : m.inLiteral = false) : m.visible cs = outside.visible cs := by
  cases cs with
  | nil => rfl
  | cons c cs =>
    rw [visible, visible, next_eq_start hm, next_eq_start rfl, hm, if_neg Bool.false_ne_true,
      if_neg (by decide)]

theorem visible_scan (m : Mode) (cs cs' : List Char) :
    m.visible (cs ++ cs') = m.visible cs ++ (m.scan cs).visible cs' := by
  induction cs generalizing m with
  | nil => rfl
  | cons c cs ih =>
    rw [List.cons_append, visible, visible, ih, scan_cons]
    split <;> rfl

theorem visible_append (h : (outside.scan cs).inLiteral = false) (cs' : List Char) :
    outside.visible (cs ++ cs') = outside.visible cs ++ outside.visible cs' := by
  rw [visible_scan, visible_congr h]

/-- A text without quotes is visible as a whole. -/
theorem visible_of_plain (hm : m.inLiteral = false) (h : IsPlain cs) : m.visible cs = cs := by
  induction cs generalizing m with
  | nil => rfl
  | cons c cs ih =>
    obtain ⟨hc, hcs⟩ := List.forall_mem_cons.1 h
    rw [visible, hm, if_neg Bool.false_ne_true, next_of_plain hm hc, ih rfl hcs]

/-- Of what stays inside a literal nothing is visible. -/
theorem visible_eq_nil (h : ∀ before, before <+: cs → (m.scan before).inLiteral = true) :
    m.visible cs = [] := by
  induction cs generalizing m with
  | nil => rfl
  | cons c cs ih =>
    have hm : m.inLiteral = true := h [] List.nil_prefix
    rw [visible, if_pos hm]
    refine ih fun before hbefore => ?_
    exact h (c :: before) (List.cons_prefix_cons.2 ⟨rfl, hbefore⟩)

/-- Of a literal in quotes the first quote is visible. -/
theorem visible_of_isQuoted (h : IsQuoted cs) : outside.visible cs = ['\''] := by
  obtain ⟨body, rfl, hbody, hinside⟩ := h
  have hend : (inside Quote.single).visible ['\''] = [] := rfl
  show '\'' :: (inside Quote.single).visible (body ++ ['\'']) = _
  rw [visible_scan, visible_eq_nil hinside, hbody, hend]
  rfl

end Mode

/-! ## Open brackets -/

/-- How many brackets are open behind a text, none if it closes one that is not open. -/
def openAfter (n : Nat) : List Char → Option Nat
  | [] => some n
  | c :: cs =>
    if c = '(' then openAfter (n + 1) cs
    else if c = ')' then
      if n = 0 then none else openAfter (n - 1) cs
    else openAfter n cs

variable {n m k : Nat} {cs : List Char}

theorem openAfter_open (n : Nat) (cs : List Char) :
    openAfter n ('(' :: cs) = openAfter (n + 1) cs := rfl

theorem openAfter_close (n : Nat) (cs : List Char) :
    openAfter (n + 1) (')' :: cs) = openAfter n cs := rfl

theorem openAfter_other {c : Char} (ho : c ≠ '(') (hc : c ≠ ')') (n : Nat) (cs : List Char) :
    openAfter n (c :: cs) = openAfter n cs := by
  rw [openAfter, if_neg ho, if_neg hc]

theorem openAfter_append (n : Nat) (cs cs' : List Char) :
    openAfter n (cs ++ cs') = (openAfter n cs).bind (openAfter · cs') := by
  induction cs generalizing n with
  | nil => rfl
  | cons c cs ih =>
    by_cases ho : c = '('
    · rw [ho]
      exact ih (n + 1)
    · by_cases hc : c = ')'
      · rw [hc]
        cases n with
        | zero => rfl
        | succ n => exact ih n
      · rw [List.cons_append, openAfter_other ho hc, openAfter_other ho hc]
        exact ih n

/-- Brackets around a text stay open behind it. -/
theorem openAfter_add (h : openAfter n cs = some m) (k : Nat) :
    openAfter (n + k) cs = some (m + k) := by
  induction cs generalizing n with
  | nil =>
    cases h
    rfl
  | cons c cs ih =>
    by_cases ho : c = '('
    · rw [ho] at h ⊢
      rw [openAfter_open, show n + k + 1 = n + 1 + k by omega]
      exact ih h
    · by_cases hc : c = ')'
      · rw [hc] at h ⊢
        cases n with
        | zero => cases h
        | succ n =>
          rw [openAfter_close] at h
          rw [show n + 1 + k = n + k + 1 by omega, openAfter_close]
          exact ih h
      · rw [openAfter_other ho hc] at h ⊢
        exact ih h

theorem openAfter_of_forall (h : ∀ c ∈ cs, c ≠ '(' ∧ c ≠ ')') (n : Nat) :
    openAfter n cs = some n := by
  induction cs with
  | nil => rfl
  | cons c cs ih =>
    obtain ⟨⟨ho, hc⟩, hcs⟩ := List.forall_mem_cons.1 h
    rw [openAfter_other ho hc]
    exact ih hcs

theorem count_of_openAfter (h : openAfter n cs = some m) :
    n + cs.count '(' = m + cs.count ')' := by
  induction cs generalizing n with
  | nil =>
    cases h
    rfl
  | cons c cs ih =>
    by_cases ho : c = '('
    · rw [ho] at h ⊢
      have := ih h
      rw [List.count_cons_self, List.count_cons_of_ne (by decide)]
      omega
    · by_cases hc : c = ')'
      · rw [hc] at h ⊢
        cases n with
        | zero => cases h
        | succ n =>
          have := ih h
          rw [List.count_cons_self, List.count_cons_of_ne (by decide)]
          omega
      · rw [openAfter_other ho hc] at h
        have := ih h
        rw [List.count_cons_of_ne ho, List.count_cons_of_ne hc]
        omega

/-- From its start no part of a text closes more brackets than are open. -/
theorem count_le_of_openAfter {before : List Char} (h : openAfter n cs = some m)
    (hbefore : before <+: cs) : before.count ')' ≤ n + before.count '(' := by
  obtain ⟨after, rfl⟩ := hbefore
  rw [openAfter_append] at h
  obtain ⟨k, hk, -⟩ := Option.bind_eq_some_iff.1 h
  have := count_of_openAfter hk
  omega

end QueryCompiler.Text
