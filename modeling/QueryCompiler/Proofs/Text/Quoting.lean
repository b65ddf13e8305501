/-!
# Quoted literals in a text

A scanner goes through a text and knows at every character whether it stands inside a quoted
literal. Both kinds of quotes open one; inside, a backslash takes the next character as it is, and
a quote that follows the closing quote at once takes the literal up again.

1. `scan_of_plain`: a text without quotes leaves a scanner outside that was outside.
2. `outsideAt_append`: a scanner is outside at the fixed characters of two texts in a row if it is
   for the first one, and for the second one where the first leaves it.
3. `outsideAt_split`: what this says of a single fixed character.
-/

namespace QueryCompiler.Text

/-- The quotes that open and close a literal. -/
inductive Quote
  | single
  | double
deriving DecidableEq

/-- The quote that a character is. -/
def Quote.ofChar? (c : Char) : Option Quote :=
  if c = '\'' then some .single else if c = '"' then some .double else none

theorem Quote.ofChar?_eq_none {c : Char} (h : c ≠ '\'') (h' : c ≠ '"') : ofChar? c = none := by
  unfold ofChar?
  rw [if_neg h, if_neg h']

/-- Where a scanner stands. After a closing quote the literal may still go on. -/
inductive Mode
  | outside
  | inside (quote : Quote)
  | escaped (quote : Quote)
  | closed (quote : Quote)
deriving DecidableEq

namespace Mode

/-- Where a character leads from outside. -/
def start (c : Char) : Mode :=
  match Quote.ofChar? c with
  | some quote => inside quote
  | none => outside

/-- Where a character leads. -/
def next : Mode → Char → Mode
  | outside, c => start c
  | inside quote, c =>
    if c = '\\' then escaped quote
    else if Quote.ofChar? c = some quote then closed quote
    else inside quote
  | escaped quote, _ => inside quote
  | closed quote, c => if Quote.ofChar? c = some quote then inside quote else start c

/-- The characters that come next belong to a literal. -/
def inLiteral : Mode → Bool
  | inside _ | escaped _ => true
  | outside | closed _ => false

/-- Where a text leads. -/
def scan (m : Mode) (cs : List Char) : Mode := cs.foldl next m

@[simp] theorem scan_nil (m : Mode) : m.scan [] = m := rfl

@[simp] theorem scan_cons (m : Mode) (c : Char) (cs : List Char) :
    m.scan (c :: cs) = (m.next c).scan cs := rfl

theorem scan_append (m : Mode) (cs cs' : List Char) :
    m.scan (cs ++ cs') = (m.scan cs).scan cs' := List.foldl_append

end Mode

/-! ## Texts without quotes -/

/-- No character is a quote. -/
def IsPlain (cs : List Char) : Prop := ∀ c ∈ cs, Quote.ofChar? c = none

instance (cs : List Char) : Decidable (IsPlain cs) :=
  List.decidableBAll (fun c => Quote.ofChar? c = none) cs

theorem isPlain_append {cs cs' : List Char} : IsPlain (cs ++ cs') ↔ IsPlain cs ∧ IsPlain cs' :=
  List.forall_mem_append

namespace Mode

theorem next_of_plain {m : Mode} {c : Char} (hm : m.inLiteral = false)
    (hc : Quote.ofChar? c = none) : m.next c = outside := by
  have hstart : start c = outside := by
    unfold start
    rw [hc]
  cases m with
  | outside => exact hstart
  | inside quote | escaped quote => cases hm
  | closed quote =>
    show (if _ then _ else _) = _
    rw [hc, if_neg (by rintro ⟨⟩), hstart]

theorem next_inside_of_plain {quote : Quote} {c : Char} (hc : c ≠ '\\')
    (hq : Quote.ofChar? c = none) : (inside quote).next c = inside quote := by
  show (if _ then _ else _) = _
  rw [if_neg hc, hq, if_neg (by rintro ⟨⟩)]

theorem scan_of_plain {m : Mode} {cs : List Char} (hm : m.inLiteral = false) (h : IsPlain cs) :
    (m.scan cs).inLiteral = false := by
  induction cs generalizing m with
  | nil => exact hm
  | cons c cs ih =>
    obtain ⟨hc, hcs⟩ := List.forall_mem_cons.1 h
    rw [scan_cons, next_of_plain hm hc]
    exact ih rfl hcs

end Mode

/-! ## Texts with fixed characters -/

/-- A scanner is outside before and after every fixed character, where each character comes with
the note whether it is fixed. -/
def OutsideAt (m : Mode) : List (Char × Bool) → Prop
  | [] => True
  | (c, fixed) :: cs =>
    (fixed = true → m.inLiteral = false ∧ m.next c = .outside) ∧ OutsideAt (m.next c) cs

theorem outsideAt_append {m : Mode} {cs cs' : List (Char × Bool)} :
    OutsideAt m (cs ++ cs') ↔ OutsideAt m cs ∧ OutsideAt (m.scan (cs.map (·.1))) cs' := by
  induction cs generalizing m with
  | nil => simp [OutsideAt]
  | cons c cs ih =>
    show _ ∧ OutsideAt _ (cs ++ cs') ↔ (_ ∧ OutsideAt _ cs) ∧ _
    rw [ih, and_assoc]
    rfl

/-- At one fixed character the scanner is outside before and after. -/
theorem outsideAt_split {m : Mode} {before after : List (Char × Bool)} {c : Char}
    (h : OutsideAt m (before ++ (c, true) :: after)) :
    (m.scan (before.map (·.1))).inLiteral = false ∧
      m.scan (before.map (·.1) ++ [c]) = .outside := by
  have hc := (outsideAt_append.1 h).2.1 rfl
  rw [Mode.scan_append]
  exact hc

/-- The fixed characters of a text without quotes are outside. -/
theorem outsideAt_of_plain {m : Mode} {cs : List Char} (hm : m.inLiteral = false)
    (h : IsPlain cs) : OutsideAt m (cs.map (·, true)) := by
  induction cs generalizing m with
  | nil => trivial
  | cons c cs ih =>
    obtain ⟨hc, hcs⟩ := List.forall_mem_cons.1 h
    have hnext := Mode.next_of_plain hm hc
    refine ⟨fun _ => ⟨hm, hnext⟩, ih ?_ hcs⟩
    rw [hnext]
    rfl

/-- Characters that are not fixed may be anywhere. -/
theorem outsideAt_loose (m : Mode) (cs : List Char) : OutsideAt m (cs.map (·, false)) := by
  induction cs generalizing m with
  | nil => trivial
  | cons c cs ih => exact ⟨fun h => absurd h Bool.false_ne_true, ih _⟩

/-! ## One literal -/

/-- A literal in single quotes: the scanner, once inside, leaves it at the last character and not
before. -/
def IsQuoted (cs : List Char) : Prop :=
  ∃ body, cs = '\'' :: (body ++ ['\'']) ∧
    (Mode.inside .single).scan body = .inside .single ∧
    ∀ before, before <+: body → ((Mode.inside .single).scan before).inLiteral = true

theorem scan_of_isQuoted {cs : List Char} (h : IsQuoted cs) :
    Mode.outside.scan cs = .closed .single := by
  obtain ⟨body, rfl, hbody, -⟩ := h
  show (Mode.inside .single).scan (body ++ ['\'']) = _
  rw [Mode.scan_append, hbody]
  rfl

end QueryCompiler.Text
