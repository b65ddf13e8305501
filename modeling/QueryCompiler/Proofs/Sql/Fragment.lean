import QueryCompiler.Proofs.Sql.Nesting

/-!
# Where a comparison ends

The text of a comparison is followed by the end of the filter, by a closing bracket, or by a
connector between blanks. It cannot be taken for longer or shorter than it is: outside literals its
brackets come in pairs, and no blank in it stands before the first letter of a connector or at the
end.

1. `Solid.append`: texts with such blanks in a row.
2. `IsFragment.eq_nil_of_append`: a fragment does not go on with what can follow it.
3. `steady_fragment`: a comparison has such blanks, whatever its operator and operand.

Main statements: `IsFragment.unique` and `isFragment_comparison`.
-/

namespace QueryCompiler

open Outcome

namespace Text

variable {cs cs' rest rest' : List Char}

/-! ## Blanks -/

/-- There is no blank among the characters. -/
def IsDense (cs : List Char) : Prop := ∀ c ∈ cs, c ≠ ' '

instance (cs : List Char) : Decidable (IsDense cs) := List.decidableBAll (fun c => c ≠ ' ') cs

theorem isDense_append : IsDense (cs ++ cs') ↔ IsDense cs ∧ IsDense cs' := List.forall_mem_append

theorem isDense_of_isDigits (h : IsDigits cs) : IsDense cs := by
  rintro c hc rfl
  cases h.2 _ hc

theorem isDense_of_isNumeral (h : IsNumeral cs) : IsDense cs := by
  rintro c hc rfl
  exact absurd (forall_mem_of_isNumeral h _ hc) (by decide)

/-- There is something, and it does not begin like a connector. -/
def FollowsBlank (cs : List Char) : Prop := cs.head? ∉ [none, some 'A', some 'O']

instance (cs : List Char) : Decidable (FollowsBlank cs) :=
  inferInstanceAs (Decidable (cs.head? ∉ [none, some 'A', some 'O']))

theorem not_followsBlank_nil : ¬ FollowsBlank [] := by decide

theorem followsBlank_cons_iff {c : Char} : FollowsBlank (c :: cs) ↔ c ∉ ['A', 'O'] := by
  simp [FollowsBlank]

/-- Behind each blank there is something that does not begin like a connector. -/
def Solid : List Char → Prop
  | [] => True
  | c :: cs => (c = ' ' → FollowsBlank cs) ∧ Solid cs

instance : (cs : List Char) → Decidable (Solid cs)
  | [] => .isTrue trivial
  | c :: cs =>
    have := instDecidableSolid cs
    inferInstanceAs (Decidable ((c = ' ' → FollowsBlank cs) ∧ Solid cs))

theorem solid_of_isDense (h : IsDense cs) : Solid cs := by
  induction cs with
  | nil => trivial
  | cons c cs ih =>
    obtain ⟨hc, hcs⟩ := List.forall_mem_cons.1 h
    exact ⟨fun hblank => absurd hblank hc, ih hcs⟩

theorem Solid.append (h : Solid cs) (h' : Solid cs') : Solid (cs ++ cs') := by
  induction cs with
  | nil => exact h'
  | cons c cs ih =>
    refine ⟨fun hc => ?_, ih h.2⟩
    have hfollows := h.1 hc
    cases cs with
    | nil => exact absurd hfollows not_followsBlank_nil
    | cons c' cs => exact hfollows

theorem Solid.append_blank (h : Solid cs) (h' : Solid cs') (hfollows : FollowsBlank cs') :
    Solid (cs ++ ' ' :: cs') :=
  h.append ⟨fun _ => hfollows, h'⟩

theorem Solid.of_append (h : Solid (cs ++ cs')) : Solid cs' := by
  induction cs with
  | nil => exact h
  | cons c cs ih => exact ih h.2

/-- A literal begins with a quote, a sign or a digit. -/
theorem followsBlank_of_isLiteral (h : IsLiteral cs) : FollowsBlank cs := by
  rcases h with h | ⟨body, rfl, -⟩
  · have hne : cs ≠ [] := by
      rcases h with ⟨h | ⟨h, _⟩⟩ | _
      · exact h.1
      · exact List.append_ne_nil_of_left_ne_nil h.1 _
      · exact List.cons_ne_nil _ _
    obtain ⟨c, cs, rfl⟩ := List.exists_cons_of_ne_nil hne
    have hc := forall_mem_of_isNumeral h c List.mem_cons_self
    rw [followsBlank_cons_iff]
    intro hmem
    simp only [List.mem_cons, List.not_mem_nil, or_false] at hmem
    rcases hmem with rfl | rfl <;> exact absurd hc (by decide)
  · rw [followsBlank_cons_iff]
    decide

/-- What is visible of a text begins as the text does. -/
theorem followsBlank_visible_iff : FollowsBlank (Mode.outside.visible cs) ↔ FollowsBlank cs := by
  cases cs with
  | nil => rfl
  | cons c cs =>
    rw [Mode.visible, if_neg (by decide), followsBlank_cons_iff, followsBlank_cons_iff]

/-! ## Fragments -/

/-- How a comparison looks from outside. -/
structure IsFragment (cs : List Char) : Prop where
  start : cs.head? ∈ [some 'T', some 'U']
  outside : (Mode.outside.scan cs).inLiteral = false
  brackets : openAfter 0 (Mode.outside.visible cs) = some 0
  solid : Solid (Mode.outside.visible cs)

/-- What comes behind a comparison. -/
inductive FollowsFragment : List Char → Prop
  | nothing : FollowsFragment []
  | bracket (rest : List Char) : FollowsFragment (')' :: rest)
  | connector (c : Char) (hc : c ∈ ['A', 'O']) (rest : List Char) :
      FollowsFragment (' ' :: c :: rest)

/-- A bracket that closes would be one too many. -/
theorem IsFragment.not_append_bracket (h : IsFragment cs) : ¬ IsFragment (cs ++ ')' :: cs') := by
  intro h'
  have hbrackets := h'.brackets
  rw [Mode.visible_append h.outside, openAfter_append, h.brackets] at hbrackets
  cases hbrackets

theorem IsFragment.followsBlank (h : IsFragment cs) (h' : IsFragment (cs ++ ' ' :: cs')) :
    FollowsBlank cs' := by
  have hsolid := h'.solid
  rw [Mode.visible_append h.outside] at hsolid
  exact followsBlank_visible_iff.1 (hsolid.of_append.1 rfl)

/-- A fragment does not go on with what can follow it. -/
theorem IsFragment.eq_nil_of_append (h : IsFragment cs) (h' : IsFragment (cs ++ cs'))
    (hfollows : FollowsFragment (cs' ++ rest)) : cs' = [] := by
  cases cs' with
  | nil => rfl
  | cons c cs' =>
    exfalso
    generalize hx : c :: cs' ++ rest = x at hfollows
    cases hfollows with
    | nothing => cases hx
    | bracket rest' =>
      cases hx
      exact h.not_append_bracket h'
    | connector c' hc' rest' =>
      rw [List.cons_append, List.cons.injEq] at hx
      obtain ⟨rfl, hx⟩ := hx
      have hblank := h.followsBlank h'
      cases cs' with
      | nil => exact not_followsBlank_nil hblank
      | cons c cs' =>
        cases hx
        exact followsBlank_cons_iff.1 hblank hc'

/-- A text begins with at most one fragment that ends where a fragment can. -/
theorem IsFragment.unique (h : IsFragment cs) (h' : IsFragment cs')
    (hfollows : FollowsFragment rest) (hfollows' : FollowsFragment rest')
    (heq : cs ++ rest = cs' ++ rest') : cs = cs' ∧ rest = rest' := by
  rcases List.append_eq_append_iff.1 heq with ⟨middle, rfl, rfl⟩ | ⟨middle, rfl, rfl⟩
  · obtain rfl := h.eq_nil_of_append h' hfollows
    exact ⟨(List.append_nil _).symm, rfl⟩
  · obtain rfl := h'.eq_nil_of_append h hfollows'
    exact ⟨List.append_nil _, rfl⟩

end Text

open Text

namespace Sql

variable {q q' : Sql} {s : String} {l : Literal}

/-! ## Blanks in parts of a statement -/

/-- Tidy pieces in whose text a blank can stand outside literals, but not before what begins a
connector. -/
structure Steady (q : Sql) : Prop where
  tidy : ∀ p ∈ q, p.IsTidy
  solid : Solid (Mode.outside.visible q.toText.toList)

/-- Tidy pieces in whose text a blank can stand in literals only. -/
structure Dense (q : Sql) : Prop where
  tidy : ∀ p ∈ q, p.IsTidy
  dense : IsDense (Mode.outside.visible q.toText.toList)

theorem visible_append (h : ∀ p ∈ q, p.IsTidy) (q' : Sql) :
    Mode.outside.visible (q ++ q').toText.toList
      = Mode.outside.visible q.toText.toList ++ Mode.outside.visible q'.toText.toList := by
  rw [toText_append, String.toList_append, Mode.visible_append (scan_of_tidy h)]

theorem Dense.steady (h : q.Dense) : q.Steady := ⟨h.tidy, solid_of_isDense h.dense⟩

theorem Steady.append (h : q.Steady) (h' : q'.Steady) : (q ++ q').Steady := by
  refine ⟨List.forall_mem_append.2 ⟨h.tidy, h'.tidy⟩, ?_⟩
  rw [visible_append h.tidy]
  exact h.solid.append h'.solid

theorem Dense.append (h : q.Dense) (h' : q'.Dense) : (q ++ q').Dense := by
  refine ⟨List.forall_mem_append.2 ⟨h.tidy, h'.tidy⟩, ?_⟩
  rw [visible_append h.tidy, isDense_append]
  exact ⟨h.dense, h'.dense⟩

theorem visible_words (h : IsPlain s.toList) :
    Mode.outside.visible (toText [.words s]).toList = s.toList := by
  rw [toText_singleton, Piece.text, Mode.visible_of_plain rfl h]

theorem steady_cons {p : Piece} (hp : Steady [p]) (hq : q.Steady) : Steady (p :: q) := hp.append hq

theorem steady_words (h : IsPlain s.toList) (hs : Solid s.toList) : Steady [.words s] :=
  ⟨List.forall_mem_singleton.2 h, by rw [visible_words h]; exact hs⟩

/-- A blank at the end of words belongs to what comes behind them. -/
theorem steady_words_blank (h : IsPlain (s ++ " ").toList) (hs : Solid s.toList) (hq : q.Steady)
    (hfollows : FollowsBlank q.toText.toList) : Steady (.words (s ++ " ") :: q) := by
  have htidy : ∀ p ∈ [Piece.words (s ++ " ")], p.IsTidy := List.forall_mem_singleton.2 h
  have hvisible := visible_append htidy q
  rw [visible_words h, String.toList_append, List.append_assoc] at hvisible
  refine ⟨List.forall_mem_append.2 ⟨htidy, hq.tidy⟩, ?_⟩
  rw [← List.singleton_append, hvisible]
  exact hs.append_blank hq.solid (followsBlank_visible_iff.2 hfollows)

theorem dense_words (h : IsPlain s.toList) (hs : IsDense s.toList) : Dense [.words s] :=
  ⟨List.forall_mem_singleton.2 h, by rw [visible_words h]; exact hs⟩

theorem head?_columnText (table : Nat) (field : String) :
    (columnText table field).toList.head? = some 'T' := by
  unfold columnText
  simp only [String.toList_append, List.head?_append]
  rfl

theorem dense_column {table : Nat} {field : String} (h : isIdentifier field = true) :
    Dense [.column table field] := by
  have hfield : IsDense field.toList := by
    rintro c hc rfl
    cases forall_mem_of_isIdentifier h _ hc
  have hdigits : IsDense (toString table).toList := by
    rw [Nat.toString_eq_repr, Nat.toList_repr]
    exact isDense_of_isDigits (isDigits_toDigits table)
  have hnests : Nests 0 0 [.column table field] := nests_column (isBare_of_isIdentifier h)
  refine ⟨hnests.tidy, ?_⟩
  have hplain : IsPlain (columnText table field).toList := hnests.tidy _ List.mem_cons_self
  rw [toText_singleton, Piece.text, Mode.visible_of_plain rfl hplain]
  unfold columnText
  simp only [String.toList_append, isDense_append]
  exact ⟨⟨⟨by decide, hdigits⟩, by decide⟩, hfield⟩

theorem dense_literal (h : IsLiteral l.text.toList) : Dense [.literal l] := by
  refine ⟨List.forall_mem_singleton.2 h, ?_⟩
  rw [toText_singleton, Piece.text]
  rcases h with h | h
  · rw [Mode.visible_of_plain rfl (isPlain_of_isNumeral h)]
    exact isDense_of_isNumeral h
  · rw [Mode.visible_of_isQuoted h]
    decide

theorem dense_separated {qs : List Sql} (h : ∀ q ∈ qs, Dense q) : Dense (separated "," qs) := by
  have hcomma : Dense [.words ","] := dense_words (by decide) (by decide)
  induction qs with
  | nil => exact ⟨fun _ h => absurd h List.not_mem_nil, fun _ h => absurd h List.not_mem_nil⟩
  | cons q qs ih =>
    obtain ⟨hq, hqs⟩ := List.forall_mem_cons.1 h
    cases qs with
    | nil =>
      rw [separated_singleton]
      exact hq
    | cons q' qs =>
      rw [separated_cons_cons]
      exact hq.append (hcomma.append (ih hqs))

end Sql

/-! ## Comparisons -/

/-- No operand has blanks outside literals, and a single one does not begin like a connector. -/
def Operand.Dense : Operand → Prop
  | none => True
  | single q => q.Dense ∧ FollowsBlank q.toText.toList
  | list items => ∀ q ∈ items, q.Dense

namespace Compiler

open Sql

variable {k : Compiler} {r : Request} {c : Comparison} {q : Sql}

theorem dense_of_operandCase {o : Operand} (h : OperandCase r c o) : o.Dense := by
  cases h with
  | none _ => trivial
  | literal _ _ hl =>
    have hliteral := Literal.isLiteral_of_renders (.inr ⟨_, hl⟩)
    refine ⟨dense_literal hliteral, ?_⟩
    rw [toText_singleton, Piece.text]
    exact followsBlank_of_isLiteral hliteral
  | column _ _ _ hf =>
    refine ⟨dense_column hf, ?_⟩
    rw [toText_singleton, Piece.text, FollowsBlank, head?_columnText]
    decide
  | list _ _ hl =>
    have hls := Literal.forall_isLiteral (Literal.forall_renders_of_mapM hl)
    intro q hq
    obtain ⟨l, hmem, rfl⟩ := List.mem_map.1 hq
    exact dense_literal (hls l hmem)

theorem dense_listBody {items : List Sql} (h : ∀ q ∈ items, q.Dense) :
    (k.listBody items).Dense := by
  unfold listBody
  by_cases hitems : items = []
  · have hnumeral := isNumeral_int k.sentinel.toInt
    rw [if_pos hitems]
    exact dense_words (isPlain_of_isNumeral hnumeral) (isDense_of_isNumeral hnumeral)
  · rw [if_neg hitems]
    exact dense_separated h

theorem steady_fragment {column : Sql} {op : Operator} {o : Operand} (hcolumn : column.Dense)
    (ho : o.Dense) (h : k.fragment column op o = .ok q) : q.Steady := by
  have hclose : Steady [.words ")"] := steady_words (by decide) (by decide)
  cases fragmentCase h with
  | test =>
    have htest : Steady [.words (" " ++ op.symbol)] := by
      cases op <;> exact steady_words (by decide) (by decide)
    exact hcolumn.steady.append htest
  | binary =>
    have hsymbol : Steady [.words op.symbol] := by
      cases op <;> exact steady_words (by decide) (by decide)
    exact hcolumn.steady.append (steady_cons hsymbol ho.1.steady)
  | like =>
    have hwords : " LIKE " = " LIKE" ++ " " := rfl
    rw [hwords]
    exact hcolumn.steady.append
      (steady_words_blank (by decide) (by decide) ho.1.steady ho.2)
  | likeAnyCase =>
    have hfirst : Steady [.words "UPPER("] := steady_words (by decide) (by decide)
    have hsecond : Steady [.words ") LIKE UPPER("] := steady_words (by decide) (by decide)
    exact ((steady_cons hfirst hcolumn.steady).append
      (steady_cons hsecond ho.1.steady)).append hclose
  | membership =>
    have hopen : Steady [.words (" " ++ op.symbol ++ " (")] := by
      cases op <;> exact steady_words (by decide) (by decide)
    exact (hcolumn.steady.append
      (steady_cons hopen (dense_listBody ho).steady)).append hclose

/-- A fragment begins with its column or with a function of it. -/
theorem head?_fragment {table : Nat} {field : String} {op : Operator} {o : Operand}
    (h : k.fragment [.column table field] op o = .ok q) :
    q.toText.toList.head? ∈ [some 'T', some 'U'] := by
  cases fragmentCase h with
  | test | binary | like | membership =>
    show (toText (.column table field :: _)).toList.head? ∈ _
    rw [toText_cons, Piece.text, String.toList_append, List.head?_append, head?_columnText]
    exact List.mem_cons_self
  | likeAnyCase =>
    have hhead : "UPPER(".toList.head? = some 'U' := by decide
    show (toText (.words "UPPER(" :: _)).toList.head? ∈ _
    rw [toText_cons, Piece.text, String.toList_append, List.head?_append, hhead]
    exact List.mem_cons_of_mem _ List.mem_cons_self

/-- The text of a comparison is a fragment, if its field is an identifier. -/
theorem isFragment_comparison (hc : isIdentifier c.field = true) (h : k.comparison r c = .ok q) :
    IsFragment q.toText.toList := by
  have hnests := nests_comparison (isBare_of_isIdentifier hc) h
  obtain ⟨o, ho, hq⟩ := bind_eq_ok_iff.1 h
  have hsteady := steady_fragment (dense_column hc) (dense_of_operandCase (operandCase ho)) hq
  exact ⟨head?_fragment hq, scan_of_tidy hnests.tidy, hnests.brackets, hsteady.solid⟩

end Compiler

end QueryCompiler
