import QueryCompiler.Proofs.Sql.Parts
import QueryCompiler.Proofs.ValidRequest

/-!
# Columns in scope

A column of a statement means something only if its table stands in the FROM part, and inside an
ON clause only if the table stands there already. `Sql.Scoped` says this of pieces in their order.

1. The columns of a condition belong to tables that its comparisons name, so they are usable
   wherever the comparisons are sound (`columns_conditions`).
2. A join line names its own table, which it introduces, an earlier one on the left, and in its
   further conditions tables up to its own: with `earlier_of_usable` these are all introduced.
3. By induction along the links the tables come in ascending order and every line is in scope
   (`scoped_joinLines`).

Main statement: `scoped_of_validate`.
-/

namespace QueryCompiler

open Outcome Predicate

namespace Sql

/-- Each column belongs to a table that is known or was introduced before it. -/
def Scoped (known : List Nat) (q : Sql) : Prop :=
  ∀ before table field after, q = before ++ .column table field :: after →
    table ∈ known ++ tables before

theorem scoped_of_columns {known : List Nat} {q : Sql} (h : ∀ x ∈ q.columns, x.1 ∈ known) :
    q.Scoped known := by
  intro before table field after hq
  refine List.mem_append_left _ (h (table, field) ?_)
  rw [hq, columns_append]
  simp [columns]

theorem Scoped.append {known : List Nat} {q q' : Sql} (h : q.Scoped known)
    (h' : q'.Scoped (known ++ q.tables)) : (q ++ q').Scoped known := by
  intro before table field after hq
  rcases List.append_eq_append_iff.1 hq with ⟨middle, rfl, hm⟩ | ⟨middle, rfl, hm⟩
  · have := h' middle table field after hm
    rwa [List.append_assoc, ← tables_append] at this
  · cases middle with
    | nil =>
      have := h' [] table field after hm.symm
      simpa using this
    | cons p middle =>
      rw [List.cons_append, List.cons.injEq] at hm
      exact h before table field middle (by rw [hm.1])

theorem Scoped.mem_of_mem_columns {known : List Nat} {q : Sql} (h : q.Scoped known)
    {x : Nat × String} (hx : x ∈ q.columns) : x.1 ∈ known ++ q.tables := by
  obtain ⟨p, hp, hpx⟩ := List.mem_filterMap.1 hx
  cases p with
  | column table field =>
    cases hpx
    obtain ⟨before, after, rfl⟩ := List.append_of_mem hp
    have := h before table field after rfl
    rw [tables_append, ← List.append_assoc]
    exact List.mem_append_left _ this
  | words | table | label | literal => cases hpx

end Sql

namespace Compiler

variable {k : Compiler} {r : Request}

/-! ## Conditions -/

theorem columns_comparison {c : Comparison} {q : Sql} {bound : Option Nat}
    (h : k.comparison r c = .ok q) (hc : r.Sound bound c) :
    q.tables = [] ∧ ∀ x ∈ q.columns, r.Usable bound x.1 := by
  obtain ⟨o, ho, hq⟩ := comparison_marks h
  rw [← Sql.tables_marks, ← Sql.columns_marks, hq]
  cases ho with
  | none _ | literal _ _ _ =>
    refine ⟨rfl, fun x hx => ?_⟩
    obtain rfl : x = (c.table, c.field) := by simpa [Sql.columns, Operand.marks, Sql.marks] using hx
    exact hc.1
  | @column aliasName field table _ hv ha _ =>
    refine ⟨rfl, fun x hx => ?_⟩
    obtain rfl | rfl : x = (c.table, c.field) ∨ x = (table, field) := by
      simpa [Sql.columns, Operand.marks, Sql.marks] using hx
    · exact hc.1
    · obtain ⟨table', ha', hu⟩ := hc.2 aliasName field hv
      rw [Request.tableOf_eq_ok_iff, ha'] at ha
      cases ha
      exact hu
  | @list _ ls _ _ _ =>
    have hls : (Operand.list (ls.map fun l => [Piece.literal l])).marks = ls.map .literal := by
      simp [Operand.marks, Sql.marks, List.flatMap_map, ← List.map_eq_flatMap]
    rw [hls]
    have hcolumns : Sql.columns (ls.map .literal) = [] := by simp [Sql.columns]
    have htables : Sql.tables (ls.map .literal) = [] := by simp [Sql.tables]
    refine ⟨htables, fun x hx => ?_⟩
    obtain rfl : x = (c.table, c.field) := by
      rw [← List.singleton_append, Sql.columns_append, hcolumns] at hx
      simpa [Sql.columns] using hx
    exact hc.1

/-- A condition introduces no table, and its columns are usable where its comparisons are sound. -/
theorem columns_conditions {ps : List Predicate} {q : Sql} {bound : Option Nat}
    (h : k.conditions r ps = .ok q) (hs : ∀ c ∈ comparisons ps, r.Sound bound c) :
    q.tables = [] ∧ ∀ x ∈ q.columns, r.Usable bound x.1 := by
  induction ps using sequenceInduction generalizing q with
  | nil =>
    cases h
    exact ⟨rfl, fun x hx => absurd hx List.not_mem_nil⟩
  | comparison connector c ps ih =>
    obtain ⟨q₁, q₂, h₁, h₂, rfl⟩ := conditions_comparison_eq_ok_iff.1 h
    rw [comparisons_comparison_cons, List.forall_mem_cons] at hs
    obtain ⟨ht₁, hc₁⟩ := columns_comparison h₁ hs.1
    obtain ⟨ht₂, hc₂⟩ := ih h₂ hs.2
    refine ⟨by simp [ht₁, ht₂], ?_⟩
    rw [Sql.columns_append, Sql.columns_append, columns_connectorSql, List.nil_append,
      List.forall_mem_append]
    exact ⟨hc₁, hc₂⟩
  | group connector children ps ihc ih =>
    obtain ⟨q₁, q₂, h₁, h₂, rfl⟩ := conditions_group_eq_ok_iff.1 h
    rw [comparisons_group_cons, List.forall_mem_append] at hs
    obtain ⟨ht₁, hc₁⟩ := ihc h₁ hs.1
    obtain ⟨ht₂, hc₂⟩ := ih h₂ hs.2
    refine ⟨by simp [ht₁, ht₂], ?_⟩
    simp only [Sql.columns_append, columns_connectorSql, Sql.columns_words_cons, Sql.columns_nil,
      List.nil_append, List.append_nil, List.forall_mem_append]
    exact ⟨hc₁, hc₂⟩

/-! ## Join lines -/

theorem mem_keys_of_attached {table : Nat} (h : r.isAttached table = true) :
    table ∈ 0 :: r.links.keys := by
  rcases (Request.isAttached_iff.1 h).2 with h | h
  · rw [h]
    exact List.mem_cons_self
  · exact List.mem_cons_of_mem _ (Sorted.mem_keys_iff.2 h)

theorem keys_ascending (r : Request) : r.links.keys.Pairwise (· < ·) := by
  rw [Sorted.keys, List.pairwise_map]
  exact r.links.ascending.imp fun h => Nat.compare_eq_lt.1 h

/-- What a link may use is the root, its own table, or the table of an earlier link. -/
theorem earlier_of_usable {done es : List (Nat × Link)} {e : Nat × Link} {table : Nat}
    (he : r.links.entries = done ++ e :: es) (h : r.Usable (some e.1) table) :
    table ∈ 0 :: done.map (·.1) ++ [e.1] := by
  have hle : table ≤ e.1 := h.2 e.1 rfl
  have hkeys : r.links.keys = done.map (·.1) ++ e.1 :: es.map (·.1) := by
    rw [Sorted.keys, he, List.map_append, List.map_cons]
  have hlater : ∀ i ∈ es.map (·.1), e.1 < i := by
    have := keys_ascending r
    rw [hkeys, List.pairwise_append, List.pairwise_cons] at this
    exact this.2.1.1
  have hmem := mem_keys_of_attached h.1
  rw [hkeys] at hmem
  rcases List.mem_cons.1 hmem with h0 | hmem
  · simp [h0]
  rcases List.mem_append.1 hmem with hd | hmem
  · exact List.mem_append_left _ (List.mem_cons_of_mem _ hd)
  rcases List.mem_cons.1 hmem with h1 | hl
  · simp [h1]
  · have := hlater table hl
    omega

/-- The line of a link introduces its table and stays in the scope of the lines before it. -/
theorem scoped_joinLine (hr : r.Valid) {done es : List (Nat × Link)} {e : Nat × Link}
    (he : r.links.entries = done ++ e :: es) {q : Sql} (h : k.joinLine r e.1 e.2 = .ok q) :
    q.tables = [e.1] ∧ q.Scoped (0 :: done.map (·.1)) := by
  have hmem : e ∈ r.links.entries := by rw [he]; simp
  obtain ⟨name, q₁, -, h₁, rfl⟩ := joinLine_eq_ok_iff.1 h
  have hq₁ : q₁.tables = [] ∧ ∀ x ∈ q₁.columns, r.Usable (some e.1) x.1 := by
    rcases linkConditions_eq_ok_iff.1 h₁ with ⟨-, rfl⟩ | ⟨-, q₂, h₂, rfl⟩
    · exact ⟨rfl, fun x hx => absurd hx List.not_mem_nil⟩
    · obtain ⟨ht, hc⟩ := columns_conditions h₂ (hr.link_sound e hmem)
      exact ⟨by simp [ht], by simpa using hc⟩
  -- The left table is attached and comes before the link, as `Valid` says.
  have hleft : r.Usable (some e.1) e.2.leftTable := by
    obtain ⟨-, hlt, ha⟩ := hr.link e hmem
    refine ⟨ha, fun i hi => ?_⟩
    cases hi
    exact Nat.le_of_lt hlt
  have hhead : joinHead name e.1 e.2 =
      [.words ("\n" ++ e.2.kind.keyword ++ " "), .table name e.1, .words " ON ("] ++
        [.column e.2.leftTable e.2.leftField, .words "=", .column e.1 e.2.rightField] := rfl
  rw [hhead, List.append_assoc, List.append_assoc]
  refine ⟨by simp [hq₁.1], ?_⟩
  refine Sql.Scoped.append (Sql.scoped_of_columns (by simp))
    (Sql.scoped_of_columns ?_)
  rw [Sql.columns_append, Sql.columns_append, Sql.columns_words_cons, Sql.columns_nil,
    List.append_nil, List.forall_mem_append]
  constructor
  · intro x hx
    obtain rfl | rfl : x = (e.2.leftTable, e.2.leftField) ∨ x = (e.1, e.2.rightField) := by
      simpa [Sql.columns] using hx
    · exact earlier_of_usable he hleft
    · simp [Sql.tables]
  · exact fun x hx => earlier_of_usable he (hq₁.2 x hx)

/-- The join lines introduce the tables of their links in order and stay in scope. -/
theorem scoped_joinLines (hr : r.Valid) {es : List (Nat × Link)} :
    ∀ {done : List (Nat × Link)} {q : Sql}, r.links.entries = done ++ es →
      k.joinLines r es = .ok q → q.tables = es.map (·.1) ∧ q.Scoped (0 :: done.map (·.1)) := by
  induction es with
  | nil =>
    intro done q _ h
    cases h
    exact ⟨rfl, Sql.scoped_of_columns (by simp)⟩
  | cons e es ih =>
    intro done q he h
    obtain ⟨q₁, q₂, h₁, h₂, rfl⟩ := joinLines_cons_eq_ok_iff.1 h
    obtain ⟨ht₁, hs₁⟩ := scoped_joinLine hr he h₁
    have he' : r.links.entries = (done ++ [e]) ++ es := by
      rw [he, List.append_assoc]
      rfl
    obtain ⟨ht₂, hs₂⟩ := ih he' h₂
    refine ⟨by simp [ht₁, ht₂], hs₁.append ?_⟩
    rw [ht₁]
    simpa using hs₂

theorem scoped_source (hr : r.Valid) {q : Sql} (h : k.source r = .ok q) :
    q.tables = 0 :: r.links.keys ∧ q.Scoped [] := by
  obtain ⟨name, q₁, -, h₁, rfl⟩ := source_eq_ok_iff.1 h
  have hnone : r.links.entries = [] ++ r.links.entries := rfl
  obtain ⟨ht, hs⟩ := scoped_joinLines hr hnone h₁
  refine ⟨by simp [ht, Sorted.keys], ?_⟩
  exact Sql.Scoped.append (Sql.scoped_of_columns (by simp)) hs

/-- The line of every link stands among the join lines. -/
theorem joinLine_of_joinLines {es : List (Nat × Link)} {q : Sql} (h : k.joinLines r es = .ok q)
    {e : Nat × Link} (he : e ∈ es) : ∃ line, k.joinLine r e.1 e.2 = .ok line ∧ line <:+: q := by
  induction es generalizing q with
  | nil => cases he
  | cons e' es ih =>
    obtain ⟨q₁, q₂, h₁, h₂, rfl⟩ := joinLines_cons_eq_ok_iff.1 h
    rcases List.mem_cons.1 he with rfl | he
    · exact ⟨q₁, h₁, (List.prefix_append q₁ q₂).isInfix⟩
    · obtain ⟨line, hline, hin⟩ := ih h₂ he
      exact ⟨line, hline, hin.trans (List.suffix_append q₁ q₂).isInfix⟩

/-! ## Statements -/

@[simp] theorem tables_distinctWords (r : Request) : (distinctWords r).tables = [] := by
  unfold distinctWords
  cases r.distinct <;> rfl

@[simp] theorem columns_distinctWords (r : Request) : (distinctWords r).columns = [] := by
  unfold distinctWords
  cases r.distinct <;> rfl

@[simp] theorem tables_limitLine (r : Request) : (limitLine r).tables = [] := by
  unfold limitLine
  split <;> rfl

@[simp] theorem columns_limitLine (r : Request) : (limitLine r).columns = [] := by
  unfold limitLine
  split <;> rfl

theorem columns_filterLine (hr : r.Valid) {q : Sql} (h : k.filterLine r = .ok q) :
    q.tables = [] ∧ ∀ x ∈ q.columns, r.isAttached x.1 = true := by
  rcases filterLine_eq_ok_iff.1 h with ⟨-, rfl⟩ | ⟨-, q₁, h₁, rfl⟩
  · exact ⟨rfl, fun x hx => absurd hx List.not_mem_nil⟩
  · obtain ⟨ht, hc⟩ := columns_conditions h₁ hr.sound
    exact ⟨by simp [ht], fun x hx => (hc x (by simpa using hx)).1⟩

theorem columns_selectList (hr : r.Valid) :
    (selectList r).tables = [] ∧ ∀ x ∈ (selectList r).columns, r.isAttached x.1 = true := by
  have hitems (xs : List (Nat × String)) :
      Sql.tables ((xs.map fun s => selectItem s.1 s.2).flatMap Sql.marks) = [] ∧
        Sql.columns ((xs.map fun s => selectItem s.1 s.2).flatMap Sql.marks) = xs := by
    induction xs with
    | nil => exact ⟨rfl, rfl⟩
    | cons x xs ih =>
      rw [List.map_cons, List.flatMap_cons, Sql.tables_append, Sql.columns_append, ih.1, ih.2]
      exact ⟨rfl, rfl⟩
  rw [← Sql.tables_marks, ← Sql.columns_marks, selectList, Sql.marks_separated, (hitems _).1,
    (hitems _).2]
  refine ⟨rfl, fun x hx => ?_⟩
  obtain ⟨e, he, hx⟩ := List.mem_flatMap.1 hx
  obtain ⟨field, -, rfl⟩ := List.mem_map.1 hx
  exact hr.field e.1 (List.mem_map_of_mem he)

theorem columns_orderLine (hr : r.Valid) :
    (orderLine r).tables = [] ∧ ∀ x ∈ (orderLine r).columns, r.isAttached x.1 = true := by
  have hitems (terms : List OrderTerm) :
      Sql.tables ((terms.map orderItem).flatMap Sql.marks) = [] ∧
        Sql.columns ((terms.map orderItem).flatMap Sql.marks)
          = terms.map fun term => (term.table, term.field) := by
    induction terms with
    | nil => exact ⟨rfl, rfl⟩
    | cons term terms ih =>
      have hterm : (orderItem term).marks = [.column term.table term.field] := by
        obtain ⟨_, _, _ | _, _⟩ := term <;> rfl
      rw [List.map_cons, List.flatMap_cons, Sql.tables_append, Sql.columns_append, ih.1, ih.2,
        hterm]
      exact ⟨rfl, rfl⟩
  unfold orderLine
  by_cases h : r.order.isEmpty = true
  · rw [if_pos h]
    exact ⟨rfl, fun x hx => absurd hx List.not_mem_nil⟩
  · rw [if_neg h, Sql.tables_words_cons, Sql.columns_words_cons, ← Sql.tables_marks,
      ← Sql.columns_marks, Sql.marks_separated, (hitems _).1, (hitems _).2]
    refine ⟨rfl, fun x hx => ?_⟩
    obtain ⟨term, ht, rfl⟩ := List.mem_map.1 hx
    exact hr.order term ht

theorem mem_keys_of_body (hr : r.Valid) {b : Sql} (h : k.body r = .ok b) :
    ∀ x ∈ b.columns, x.1 ∈ 0 :: r.links.keys := by
  obtain ⟨source, line, hs, hl, rfl⟩ := body_eq_ok_iff.1 h
  obtain ⟨ht, hscoped⟩ := scoped_source hr hs
  rw [Sql.columns_append, List.forall_mem_append]
  refine ⟨fun x hx => ?_, fun x hx => mem_keys_of_attached ((columns_filterLine hr hl).2 x hx)⟩
  have := hscoped.mem_of_mem_columns hx
  rwa [List.nil_append, ht] at this

/-- The lines of the joins stand in the FROM part. Each introduces its own table and speaks of the
root, of its own table and of tables of earlier lines. -/
theorem joinLine_of_source (hr : r.Valid) {source : Sql} (h : k.source r = .ok source)
    {e : Nat × Link} (he : e ∈ r.links.entries) :
    ∃ line, k.joinLine r e.1 e.2 = .ok line ∧ line <:+: source ∧ line.tables = [e.1] ∧
      ∀ x ∈ line.columns, x.1 = 0 ∨ x.1 = e.1 ∨ x.1 < e.1 ∧ r.links.contains x.1 = true := by
  obtain ⟨name, q, -, hq, rfl⟩ := source_eq_ok_iff.1 h
  obtain ⟨line, hline, hin⟩ := joinLine_of_joinLines hq he
  obtain ⟨done, es, hsplit⟩ := List.append_of_mem he
  obtain ⟨ht, hs⟩ := scoped_joinLine hr hsplit hline
  refine ⟨line, hline, hin.trans (List.suffix_append _ _).isInfix, ht, fun x hx => ?_⟩
  have hkeys : r.links.keys = done.map (·.1) ++ e.1 :: es.map (·.1) := by
    rw [Sorted.keys, hsplit, List.map_append, List.map_cons]
  have hmem := hs.mem_of_mem_columns hx
  rw [ht] at hmem
  rcases List.mem_append.1 hmem with hmem | hown
  · rcases List.mem_cons.1 hmem with h0 | hd
    · exact .inl h0
    · have hlt : x.1 < e.1 := by
        have := keys_ascending r
        rw [hkeys, List.pairwise_append] at this
        exact this.2.2 x.1 hd e.1 List.mem_cons_self
      refine .inr (.inr ⟨hlt, Sorted.mem_keys_iff.1 ?_⟩)
      rw [hkeys]
      exact List.mem_append_left _ hd
  · exact .inr (.inl (List.mem_singleton.1 hown))

/-- A FROM part in which every table is introduced once and every column in time. -/
structure SourceInScope (k : Compiler) (r : Request) (source : Sql) : Prop where
  /-- The root and the tables of the links are introduced, and no others. -/
  tables : source.tables = 0 :: r.links.keys
  /-- The tables come in ascending order, hence each of them once. -/
  ascending : (0 :: r.links.keys).Pairwise (· < ·)
  /-- No column comes before its table. -/
  inScope : source.Scoped []
  /-- In the line of a join every column belongs to the root, to the table of the line, or to a
  table of an earlier line. -/
  line : ∀ e ∈ r.links.entries, ∃ line, k.joinLine r e.1 e.2 = .ok line ∧ line <:+: source ∧
    line.tables = [e.1] ∧
      ∀ x ∈ line.columns, x.1 = 0 ∨ x.1 = e.1 ∨ x.1 < e.1 ∧ r.links.contains x.1 = true

theorem sourceInScope (hr : r.Valid) {source : Sql} (h : k.source r = .ok source) :
    k.SourceInScope r source where
  tables := (scoped_source hr h).1
  ascending := by
    refine List.pairwise_cons.2 ⟨fun i hi => Nat.pos_of_ne_zero ?_, keys_ascending r⟩
    rintro rfl
    rw [Sorted.mem_keys_iff, hr.root_unlinked] at hi
    cases hi
  inScope := (scoped_source hr h).2
  line _ he := joinLine_of_source hr h he

/-- In the statements for a valid request every column belongs to the root or to the table of a
link, and all these tables are introduced in the FROM part. -/
theorem scoped_of_validate (hv : r.validate = .ok ()) {q : Sql}
    (hq : k.select r = .ok q ∨ k.count r = .ok q) :
    (∀ x ∈ q.columns, x.1 = 0 ∨ r.links.contains x.1 = true) ∧
      ∃ before source after, q = before ++ source ++ after ∧ k.source r = .ok source ∧
        before.tables = [] ∧ after.tables = [] ∧ k.SourceInScope r source := by
  have hr := Request.valid_of_validate hv
  have hattached {x : Nat × String} (h : x.1 ∈ 0 :: r.links.keys) :
      x.1 = 0 ∨ r.links.contains x.1 = true :=
    (List.mem_cons.1 h).imp_right Sorted.mem_keys_iff.1
  rcases hq with hq | hq
  · obtain ⟨-, -, b, hb, rfl⟩ := select_eq_ok_iff.1 hq
    have hcolumns := mem_keys_of_body hr hb
    obtain ⟨source, line, hs, hl, rfl⟩ := body_eq_ok_iff.1 hb
    have hlist := columns_selectList hr
    have horder := columns_orderLine hr
    refine ⟨?_, [.words "SELECT "] ++ distinctWords r ++ selectList r ++ [.words "\n"], source,
      line ++ orderLine r ++ limitLine r, by simp, hs, by simp [hlist.1],
      by simp [(columns_filterLine hr hl).1, horder.1], sourceInScope hr hs⟩
    intro x hx
    simp only [Sql.columns_append, Sql.columns_words_cons, Sql.columns_nil, List.nil_append,
      columns_distinctWords, columns_limitLine, List.append_nil, List.mem_append] at hx
    rcases hx with (hx | hx) | hx
    · exact hattached (mem_keys_of_attached (hlist.2 x hx))
    · exact hattached (hcolumns x (by simpa using hx))
    · exact hattached (mem_keys_of_attached (horder.2 x hx))
  · obtain ⟨-, b, hb, rfl⟩ := count_eq_ok_iff.1 hq
    have hcolumns := mem_keys_of_body hr hb
    obtain ⟨source, line, hs, hl, rfl⟩ := body_eq_ok_iff.1 hb
    refine ⟨?_, [.words "SELECT COUNT("] ++ distinctWords r
      ++ [.column 0 "id", .words ") AS C\n"], source, line, by simp, hs, by simp,
      (columns_filterLine hr hl).1, sourceInScope hr hs⟩
    intro x hx
    simp only [Sql.columns_append (_ ++ _) (source ++ line), List.mem_append] at hx
    rcases hx with hx | hx
    · left
      have : x = (0, "id") := by simpa using hx
      rw [this]
    · exact hattached (hcolumns x hx)

theorem scoped_of_validate_sample :
    Request.sample.validate = .ok () ∧ ∃ q, shop.select .sample = .ok q ∧
      (∀ x ∈ q.columns, x.1 = 0 ∨ Request.sample.links.contains x.1 = true) ∧
        ∃ before source after, q = before ++ source ++ after ∧ shop.source .sample = .ok source ∧
          before.tables = [] ∧ after.tables = [] ∧ shop.SourceInScope .sample source :=
  ⟨rfl, _, rfl, scoped_of_validate rfl (.inl rfl)⟩

end Compiler

end QueryCompiler
