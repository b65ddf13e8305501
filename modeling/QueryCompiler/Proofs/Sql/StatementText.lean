import QueryCompiler.Proofs.Sql.Parts

/-!
# The texts of statements

What the parts of a statement are as texts, so that a statement can be read off its request: the
selected fields, the sort keys and the range have texts of their own, a join has one line, and
tables, joins and filter are one after the other.

1. `toText_selectList`, `toText_orderLine`, `toText_limitLine`: what stands around the body.
2. `joinLine_eq_ok` and `isJoinLine_of_joinLine`: a join with its conditions, as `joinText` spells it.
3. `isSource_of_source`: the first table, and a line for each join.

Main statement: `isBody_of_body`.
-/

namespace QueryCompiler

open Outcome

/-! ## Around the body -/

namespace Sql

theorem toText_separated (s : String) (qs : List Sql) :
    toText (separated s qs) = s.intercalate (qs.map toText) := by
  induction qs with
  | nil => rfl
  | cons q qs ih =>
    cases qs with
    | nil => simp [separated, List.intercalate]
    | cons q' qs =>
      have hmap : (q :: q' :: qs).map toText = q.toText :: q'.toText :: qs.map toText := rfl
      rw [separated_cons_cons, toText_append, toText_cons, ih, hmap, String.intercalate_cons_cons,
        String.append_assoc]
      rfl

end Sql

namespace Request

/-- What asks for equal rows to be given once. -/
def distinctText (r : Request) : String := if r.distinct then "DISTINCT " else ""

/-- The selected fields under their output names. -/
def columnsText (r : Request) : String :=
  ",".intercalate ((Compiler.selected r).map fun s =>
    columnText s.1 s.2 ++ " AS " ++ labelText s.1 s.2)

/-- One key that rows are sorted by. -/
def orderItemText (term : OrderTerm) : String :=
  let column := columnText term.table term.field
  (match term.part with
    | some part => part.keyword ++ "(" ++ column ++ ")"
    | none => column) ++ " " ++ term.direction.keyword

/-- The line of the sort keys, if there are any. -/
def orderText (r : Request) : String :=
  if r.order = [] then "" else "\nORDER BY " ++ ",".intercalate (r.order.map orderItemText)

/-- The line of the row range, if there is one. -/
def limitText (r : Request) : String :=
  if r.lines = 0 ∧ r.offset = 0 then "" else s!"\nLIMIT {r.offset.toNat},{r.lines.toNat}"

end Request

namespace Compiler

variable {k : Compiler} {r : Request}

/-- Some field is listed exactly if some table is asked for one. -/
theorem isEmpty_selected_eq_false_iff :
    (selected r).isEmpty = false ↔ ∃ e ∈ r.fields.entries, e.2 ≠ [] := by
  rw [List.isEmpty_eq_false_iff]
  constructor
  · intro h
    obtain ⟨x, hx⟩ := List.exists_mem_of_ne_nil _ h
    obtain ⟨e, he, hmem⟩ := List.mem_flatMap.1 hx
    refine ⟨e, he, fun hnil => ?_⟩
    rw [hnil] at hmem
    cases hmem
  · rintro ⟨e, he, hne⟩
    obtain ⟨field, hfield⟩ := List.exists_mem_of_ne_nil _ hne
    have hmem : (e.1, field) ∈ selected r :=
      List.mem_flatMap.2 ⟨e, he, List.mem_map_of_mem hfield⟩
    exact List.ne_nil_of_mem hmem

theorem toText_distinctWords (r : Request) : (distinctWords r).toText = r.distinctText := by
  unfold distinctWords Request.distinctText
  cases r.distinct <;> rfl

theorem toText_selectList (r : Request) : (selectList r).toText = r.columnsText := by
  unfold selectList Request.columnsText
  rw [Sql.toText_separated, List.map_map]
  refine congrArg _ (List.map_congr_left fun s _ => ?_)
  simp [selectItem, Sql.toText_cons, Piece.text, String.append_assoc]

theorem toText_orderLine (r : Request) : (orderLine r).toText = r.orderText := by
  have hitem (term : OrderTerm) : (orderItem term).toText = Request.orderItemText term := by
    obtain ⟨table, field, part, direction⟩ := term
    cases part with
    | none =>
      simp [orderItem, Request.orderItemText, Sql.toText_cons, Piece.text, String.append_assoc]
    | some part =>
      have hclose (s : String) : ")" ++ (" " ++ s) = ") " ++ s := by
        rw [← String.append_assoc]
        rfl
      simp [orderItem, Request.orderItemText, Sql.toText_cons, Piece.text, String.append_assoc,
        hclose]
  unfold orderLine Request.orderText
  cases r.order with
  | nil => rfl
  | cons term terms =>
    rw [List.isEmpty_cons, if_neg Bool.false_ne_true, if_neg (List.cons_ne_nil _ _),
      Sql.toText_cons, Sql.toText_separated, List.map_map]
    congr 2
    exact List.map_congr_left fun term _ => hitem term

theorem toText_limitLine (r : Request) : (limitLine r).toText = r.limitText := by
  unfold limitLine Request.limitText
  split
  · rfl
  · rw [Sql.toText_cons, Sql.toText_nil, String.append_empty]
    rfl

/-! ## The body -/

/-- The line of a join as a text. -/
def joinText (table : String) (i : Nat) (link : Link) (conditions : Sql) : String :=
  "\n" ++ link.kind.keyword ++ " " ++ table ++ s!" T{i}" ++ " ON (" ++
    columnText link.leftTable link.leftField ++ "=" ++ columnText i link.rightField ++
    (if link.conditions = [] then "" else " AND (" ++ conditions.toText ++ ")") ++ ")"

/-- The line of a join: its table has a name, and its conditions have a text. -/
def IsJoinLine (k : Compiler) (r : Request) (e : Nat × Link) (line : String) : Prop :=
  ∃ table q, k.tableName r e.1 = .ok table ∧ k.conditions r e.2.conditions = .ok q ∧
    line = joinText table e.1 e.2 q

/-- The text of the tables: the first one, and a line for each join, by their tables. -/
def IsSource (k : Compiler) (r : Request) (text : String) : Prop :=
  ∃ table lines, k.tableName r 0 = .ok table ∧
    List.Forall₂ (k.IsJoinLine r) r.links.entries lines ∧
      text = "FROM " ++ table ++ " T0" ++ String.join lines

/-- The text of the tables, followed by the filter if there is one. -/
def IsBody (k : Compiler) (r : Request) (text : String) : Prop :=
  ∃ source, k.IsSource r source ∧
    ((r.conditions = [] ∧ text = source) ∨
      r.conditions ≠ [] ∧ ∃ q, k.conditions r r.conditions = .ok q ∧
        text = source ++ "\nWHERE " ++ q.toText)

theorem joinLine_eq_ok {i : Nat} {link : Link} {table : String} {q : Sql}
    (ht : k.tableName r i = .ok table) (hq : k.conditions r link.conditions = .ok q) :
    ∃ line, k.joinLine r i link = .ok line ∧ line.toText = joinText table i link q := by
  by_cases hc : link.conditions = []
  · refine ⟨_, joinLine_eq_ok_iff.2
      ⟨table, [], ht, linkConditions_eq_ok_iff.2 (.inl ⟨hc, rfl⟩), rfl⟩, ?_⟩
    simp [joinText, joinHead, hc, Sql.toText_cons, Piece.text, String.append_assoc]
  · refine ⟨_, joinLine_eq_ok_iff.2
      ⟨table, _, ht, linkConditions_eq_ok_iff.2 (.inr ⟨hc, q, hq, rfl⟩), rfl⟩, ?_⟩
    simp [joinText, joinHead, hc, Sql.toText_append, Sql.toText_cons, Piece.text,
      String.append_assoc]

theorem isJoinLine_of_joinLine {e : Nat × Link} {line : Sql}
    (h : k.joinLine r e.1 e.2 = .ok line) : k.IsJoinLine r e line.toText := by
  obtain ⟨table, q₁, ht, hq₁, -⟩ := joinLine_eq_ok_iff.1 h
  obtain ⟨q, hq⟩ : ∃ q, k.conditions r e.2.conditions = .ok q := by
    rcases linkConditions_eq_ok_iff.1 hq₁ with ⟨hc, -⟩ | ⟨-, q, hq, -⟩
    · exact ⟨[], by rw [hc]; rfl⟩
    · exact ⟨q, hq⟩
  obtain ⟨line', hline', htext⟩ := joinLine_eq_ok ht hq
  cases hline'.symm.trans h
  exact ⟨table, q, ht, hq, htext⟩

theorem exists_lines_of_joinLines {es : List (Nat × Link)} {q : Sql}
    (h : k.joinLines r es = .ok q) :
    ∃ lines, List.Forall₂ (k.IsJoinLine r) es lines ∧ q.toText = String.join lines := by
  induction es generalizing q with
  | nil =>
    cases h
    exact ⟨[], .nil, rfl⟩
  | cons e es ih =>
    obtain ⟨line, q', hline, hlines, rfl⟩ := joinLines_cons_eq_ok_iff.1 h
    obtain ⟨lines, hforall, htext⟩ := ih hlines
    refine ⟨line.toText :: lines, .cons (isJoinLine_of_joinLine hline) hforall, ?_⟩
    rw [Sql.toText_append, htext, String.join_cons]

theorem isSource_of_source {source : Sql} (h : k.source r = .ok source) :
    k.IsSource r source.toText := by
  obtain ⟨table, q, ht, hlines, rfl⟩ := source_eq_ok_iff.1 h
  obtain ⟨lines, hforall, htext⟩ := exists_lines_of_joinLines hlines
  have hroot : Sql.toText [.words "FROM ", .table table 0] = "FROM " ++ table ++ " T0" := by
    simp [Sql.toText_cons, Piece.text, String.append_assoc]
    rfl
  exact ⟨table, lines, ht, hforall, by rw [Sql.toText_append, hroot, htext]⟩

theorem isBody_of_body {b : Sql} (h : k.body r = .ok b) : k.IsBody r b.toText := by
  obtain ⟨source, line, hs, hl, rfl⟩ := body_eq_ok_iff.1 h
  refine ⟨source.toText, isSource_of_source hs, ?_⟩
  rcases filterLine_eq_ok_iff.1 hl with ⟨hc, rfl⟩ | ⟨hc, q, hq, rfl⟩
  · exact .inl ⟨hc, by rw [List.append_nil]⟩
  · refine .inr ⟨hc, q, hq, ?_⟩
    rw [Sql.toText_append, Sql.toText_append, ← String.append_assoc]
    rfl

end Compiler

end QueryCompiler
