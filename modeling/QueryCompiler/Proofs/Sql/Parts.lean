import QueryCompiler.Proofs.Filter
import QueryCompiler.Proofs.Outcome
import QueryCompiler.Sql.Statement

/-!
# What a condition is about

Without its fixed words a part of a statement is the list of the tables, columns, output names and
literals that it is about (`Sql.marks`). For a comparison these are its own column and what its
value turns into.

Main statements: `operandCase` and `fragmentCase` (what an operand and a fragment can be) and
`comparison_marks`.
-/

namespace QueryCompiler

open Outcome Predicate

namespace Sql

/-- The tables that some pieces introduce. -/
def tables (q : Sql) : List Nat :=
  q.filterMap fun
    | .table _ i => some i
    | _ => none

/-- The literals that occur in some pieces. -/
def literals (q : Sql) : List Literal :=
  q.filterMap fun
    | .literal l => some l
    | _ => none

/-- The pieces that are not fixed words. -/
def marks (q : Sql) : Sql :=
  q.filter fun
    | .words _ => false
    | _ => true

theorem toText_cons (p : Piece) (q : Sql) : toText (p :: q) = p.text ++ toText q := by
  simp [toText]

@[simp] theorem toText_nil : toText [] = "" := rfl

@[simp] theorem tables_nil : tables [] = [] := rfl

@[simp] theorem columns_nil : columns [] = [] := rfl

@[simp] theorem literals_nil : literals [] = [] := rfl

@[simp] theorem tables_words_cons (s : String) (q : Sql) : tables (.words s :: q) = tables q := rfl

@[simp] theorem tables_table_cons (name : String) (i : Nat) (q : Sql) :
    tables (.table name i :: q) = i :: tables q := rfl

@[simp] theorem tables_column_cons (i : Nat) (field : String) (q : Sql) :
    tables (.column i field :: q) = tables q := rfl

@[simp] theorem columns_table_cons (name : String) (i : Nat) (q : Sql) :
    columns (.table name i :: q) = columns q := rfl

@[simp] theorem columns_column_cons (i : Nat) (field : String) (q : Sql) :
    columns (.column i field :: q) = (i, field) :: columns q := rfl

@[simp] theorem columns_words_cons (s : String) (q : Sql) :
    columns (.words s :: q) = columns q := rfl

@[simp] theorem literals_words_cons (s : String) (q : Sql) :
    literals (.words s :: q) = literals q := rfl

@[simp] theorem tables_append (q q' : Sql) : tables (q ++ q') = tables q ++ tables q' :=
  List.filterMap_append

@[simp] theorem literals_append (q q' : Sql) : literals (q ++ q') = literals q ++ literals q' :=
  List.filterMap_append

attribute [simp] columns_append

theorem marks_append (q q' : Sql) : marks (q ++ q') = marks q ++ marks q' :=
  List.filter_append ..

theorem columns_marks (q : Sql) : columns (marks q) = columns q := by
  induction q with
  | nil => rfl
  | cons p q ih => cases p <;> simpa [marks, columns] using ih

theorem tables_marks (q : Sql) : tables (marks q) = tables q := by
  induction q with
  | nil => rfl
  | cons p q ih => cases p <;> simpa [marks, tables] using ih

theorem literals_marks (q : Sql) : literals (marks q) = literals q := by
  induction q with
  | nil => rfl
  | cons p q ih => cases p <;> simpa [marks, literals] using ih

theorem separated_singleton (s : String) (q : Sql) : separated s [q] = q := by
  simp [separated, List.intercalate]

theorem separated_cons_cons (s : String) (q q' : Sql) (qs : List Sql) :
    separated s (q :: q' :: qs) = q ++ .words s :: separated s (q' :: qs) := by
  simp [separated, List.intercalate, List.intersperse]

theorem marks_separated (s : String) (qs : List Sql) :
    marks (separated s qs) = qs.flatMap marks := by
  induction qs with
  | nil => rfl
  | cons q qs ih =>
    cases qs with
    | nil => rw [separated_singleton, List.flatMap_singleton]
    | cons q' qs =>
      rw [separated_cons_cons, marks_append, List.flatMap_cons, ← ih]
      rfl

end Sql

namespace Operand

/-- What an operand is about. -/
def marks : Operand → Sql
  | none => []
  | single q => q.marks
  | list items => items.flatMap Sql.marks

end Operand

namespace Compiler

variable {k : Compiler} {r : Request} {c : Comparison}

/-- What the right-hand side of a comparison can turn into. -/
inductive OperandCase (r : Request) (c : Comparison) : Operand → Prop
  | none (h : c.operator.takesValue = false ∨ c.value = .none) : OperandCase r c .none
  | literal {s : Scalar} {type : DomainType} {l : Literal} (ht : c.operator.takesValue = true)
      (hv : c.value = .literal s) (hl : Literal.coerce type s = .ok l) :
      OperandCase r c (.single [.literal l])
  | column {aliasName field : String} {table : Nat} (ht : c.operator.takesValue = true)
      (hv : c.value = .column aliasName field) (ha : r.tableOf aliasName = .ok table)
      (hf : isIdentifier field = true) : OperandCase r c (.single [.column table field])
  | list {items : List Scalar} {ls : List Literal} (ht : c.operator.takesValue = true)
      (hv : c.value = .list items) (hl : items.mapM Literal.element = .ok ls) :
      OperandCase r c (.list (ls.map fun l => [.literal l]))

theorem operandCase {o : Operand} (h : k.operand r c = .ok o) : OperandCase r c o := by
  unfold operand at h
  by_cases ht : c.operator.takesValue = true
  · rw [if_pos ht] at h
    cases hv : c.value with
    | none =>
      rw [hv] at h
      cases h
      exact .none (.inr hv)
    | literal s =>
      simp only [hv, bind_eq_ok_iff, pure_eq_ok] at h
      obtain ⟨name, -, type, -, l, hl, ho⟩ := h
      cases ho
      exact .literal ht hv hl
    | column aliasName field =>
      simp only [hv, bind_eq_ok_iff] at h
      obtain ⟨table, ha, h⟩ := h
      by_cases hf : isIdentifier field = true
      · rw [if_pos hf] at h
        cases h
        exact .column ht hv ha hf
      · rw [if_neg hf] at h
        cases h
    | list items =>
      simp only [hv, bind_eq_ok_iff, pure_eq_ok] at h
      obtain ⟨ls, hl, ho⟩ := h
      cases ho
      exact .list ht hv hl
  · rw [if_neg ht] at h
    cases h
    exact .none (.inl (Bool.not_eq_true _ ▸ ht))

theorem marks_listBody (k : Compiler) (items : List Sql) :
    (k.listBody items).marks = items.flatMap Sql.marks := by
  unfold listBody
  by_cases h : items = []
  · rw [if_pos h, h]
    rfl
  · rw [if_neg h, Sql.marks_separated]

/-- What a fragment can look like. -/
inductive FragmentCase (k : Compiler) (column : Sql) : Operator → Operand → Sql → Prop
  | test {op : Operator} {o : Operand} (ht : op.takesValue = false) :
      FragmentCase k column op o (column ++ [.words (" " ++ op.symbol)])
  | binary {op : Operator} {s : Sql} :
      FragmentCase k column op (.single s) (column ++ .words op.symbol :: s)
  | like {s : Sql} : FragmentCase k column .like (.single s) (column ++ .words " LIKE " :: s)
  | likeAnyCase {s : Sql} :
      FragmentCase k column .likeAnyCase (.single s)
        (.words "UPPER(" :: column ++ .words ") LIKE UPPER(" :: s ++ [.words ")"])
  | membership {op : Operator} {items : List Sql} :
      FragmentCase k column op (.list items)
        (column ++ .words (" " ++ op.symbol ++ " (") :: k.listBody items ++ [.words ")"])

theorem fragmentCase {column q : Sql} {op : Operator} {o : Operand}
    (h : k.fragment column op o = .ok q) : k.FragmentCase column op o q := by
  have hsingle {s : Sql} (hs : o.single? op = .ok s) : o = .single s := by
    cases o <;> cases hs
    rfl
  have hlist {items : List Sql} (hs : o.list? op = .ok items) : o = .list items := by
    cases o <;> cases hs
    rfl
  cases op with
  | isNull | isNotNull =>
    cases h
    exact .test rfl
  | greater | less | greaterEqual | lessEqual | equal | notEqual =>
    obtain ⟨s, hs, hq⟩ := bind_eq_ok_iff.1 h
    obtain rfl := hsingle hs
    cases hq
    exact .binary
  | like =>
    obtain ⟨s, hs, hq⟩ := bind_eq_ok_iff.1 h
    obtain rfl := hsingle hs
    cases hq
    exact .like
  | likeAnyCase =>
    obtain ⟨s, hs, hq⟩ := bind_eq_ok_iff.1 h
    obtain rfl := hsingle hs
    cases hq
    exact .likeAnyCase
  | isIn | isNotIn =>
    obtain ⟨items, hs, hq⟩ := bind_eq_ok_iff.1 h
    obtain rfl := hlist hs
    cases hq
    exact .membership

/-- A fragment is about its column and its operand, in this order. -/
theorem fragment_marks {column q : Sql} {op : Operator} {o : Operand}
    (h : k.fragment column op o = .ok q) (ho : op.takesValue = false → o = .none) :
    q.marks = column.marks ++ o.marks := by
  cases fragmentCase h with
  | test ht =>
    rw [ho ht, Sql.marks_append]
    rfl
  | binary | like =>
    rw [Sql.marks_append]
    rfl
  | likeAnyCase => simp [Operand.marks, Sql.marks]
  | membership =>
    rw [Operand.marks, ← marks_listBody k]
    simp [Sql.marks]

/-- A comparison is about its own column and what its value turns into. -/
theorem comparison_marks {q : Sql} (h : k.comparison r c = .ok q) :
    ∃ o, OperandCase r c o ∧ q.marks = .column c.table c.field :: o.marks := by
  obtain ⟨o, ho, hq⟩ := bind_eq_ok_iff.1 h
  refine ⟨o, operandCase ho, fragment_marks hq fun ht => ?_⟩
  cases operandCase ho with
  | none _ => rfl
  | literal ht' | column ht' | list ht' => rw [ht] at ht'; cases ht'

/-! ## What is written, where writing succeeds -/

@[simp] theorem tables_connectorSql (connector : Option Connector) :
    (connectorSql connector).tables = [] := by
  cases connector <;> rfl

@[simp] theorem columns_connectorSql (connector : Option Connector) :
    (connectorSql connector).columns = [] := by
  cases connector <;> rfl

@[simp] theorem literals_connectorSql (connector : Option Connector) :
    (connectorSql connector).literals = [] := by
  cases connector <;> rfl

theorem conditions_comparison_eq_ok_iff {connector : Option Connector} {ps : List Predicate}
    {q : Sql} :
    k.conditions r (.comparison connector c :: ps) = .ok q ↔
      ∃ q₁ q₂, k.comparison r c = .ok q₁ ∧ k.conditions r ps = .ok q₂ ∧
        q = connectorSql connector ++ q₁ ++ q₂ := by
  simp only [conditions, condition, bind_eq_ok_iff, pure_eq_ok, Except.ok.injEq]
  constructor
  · rintro ⟨_, ⟨q₁, h₁, rfl⟩, q₂, h₂, rfl⟩
    exact ⟨q₁, q₂, h₁, h₂, rfl⟩
  · rintro ⟨q₁, q₂, h₁, h₂, rfl⟩
    exact ⟨_, ⟨q₁, h₁, rfl⟩, q₂, h₂, rfl⟩

theorem conditions_group_eq_ok_iff {connector : Option Connector} {children ps : List Predicate}
    {q : Sql} :
    k.conditions r (.group connector children :: ps) = .ok q ↔
      ∃ q₁ q₂, k.conditions r children = .ok q₁ ∧ k.conditions r ps = .ok q₂ ∧
        q = connectorSql connector ++ [.words "("] ++ q₁ ++ [.words ")"] ++ q₂ := by
  simp only [conditions, condition, bind_eq_ok_iff, pure_eq_ok, Except.ok.injEq]
  constructor
  · rintro ⟨_, ⟨q₁, h₁, rfl⟩, q₂, h₂, rfl⟩
    exact ⟨q₁, q₂, h₁, h₂, by simp⟩
  · rintro ⟨q₁, q₂, h₁, h₂, rfl⟩
    exact ⟨_, ⟨q₁, h₁, rfl⟩, q₂, h₂, by simp⟩

theorem linkConditions_eq_ok_iff {link : Link} {q : Sql} :
    k.linkConditions r link = .ok q ↔
      (link.conditions = [] ∧ q = []) ∨
        link.conditions ≠ [] ∧ ∃ q₁, k.conditions r link.conditions = .ok q₁ ∧
          q = [.words " AND ("] ++ q₁ ++ [.words ")"] := by
  unfold linkConditions
  cases link.conditions with
  | nil => simp [eq_comm]
  | cons p ps =>
    rw [List.isEmpty_cons, if_neg Bool.false_ne_true]
    simp only [reduceCtorEq, false_and, false_or, ne_eq, not_false_eq_true, true_and]
    exact bind_pure_eq_ok_iff

/-- The fixed part of a join line, up to its further conditions. -/
def joinHead (name : String) (table : Nat) (link : Link) : Sql :=
  [.words ("\n" ++ link.kind.keyword ++ " "), .table name table, .words " ON (",
    .column link.leftTable link.leftField, .words "=", .column table link.rightField]

theorem joinLine_eq_ok_iff {table : Nat} {link : Link} {q : Sql} :
    k.joinLine r table link = .ok q ↔
      ∃ name q₁, k.tableName r table = .ok name ∧ k.linkConditions r link = .ok q₁ ∧
        q = joinHead name table link ++ q₁ ++ [.words ")"] := by
  unfold joinLine
  exact bind_bind_pure_eq_ok_iff

theorem joinLines_cons_eq_ok_iff {e : Nat × Link} {es : List (Nat × Link)} {q : Sql} :
    k.joinLines r (e :: es) = .ok q ↔
      ∃ q₁ q₂, k.joinLine r e.1 e.2 = .ok q₁ ∧ k.joinLines r es = .ok q₂ ∧ q = q₁ ++ q₂ := by
  rw [joinLines]
  exact bind_bind_pure_eq_ok_iff

theorem source_eq_ok_iff {q : Sql} :
    k.source r = .ok q ↔
      ∃ name q₁, k.tableName r 0 = .ok name ∧ k.joinLines r r.links.entries = .ok q₁ ∧
        q = [.words "FROM ", .table name 0] ++ q₁ := by
  unfold source
  exact bind_bind_pure_eq_ok_iff

theorem filterLine_eq_ok_iff {q : Sql} :
    k.filterLine r = .ok q ↔
      (r.conditions = [] ∧ q = []) ∨
        r.conditions ≠ [] ∧ ∃ q₁, k.conditions r r.conditions = .ok q₁ ∧
          q = [.words "\nWHERE "] ++ q₁ := by
  unfold filterLine
  cases r.conditions with
  | nil => simp [eq_comm]
  | cons p ps =>
    rw [List.isEmpty_cons, if_neg Bool.false_ne_true]
    simp only [reduceCtorEq, false_and, false_or, ne_eq, not_false_eq_true, true_and]
    exact bind_pure_eq_ok_iff

theorem body_eq_ok_iff {q : Sql} :
    k.body r = .ok q ↔ ∃ q₁ q₂, k.source r = .ok q₁ ∧ k.filterLine r = .ok q₂ ∧ q = q₁ ++ q₂ := by
  unfold body
  exact bind_bind_pure_eq_ok_iff

/-- The selected fields with their output names. -/
def selectList (r : Request) : Sql :=
  Sql.separated "," ((selected r).map fun s => selectItem s.1 s.2)

theorem select_eq_ok_iff {q : Sql} :
    k.select r = .ok q ↔
      r.validate = .ok () ∧ (selected r).isEmpty = false ∧ ∃ b, k.body r = .ok b ∧
        q = [.words "SELECT "] ++ distinctWords r ++ selectList r ++ [.words "\n"] ++ b
          ++ orderLine r ++ limitLine r := by
  unfold select
  rw [check_bind_eq_ok_iff]
  cases (selected r).isEmpty with
  | true => simp
  | false =>
    rw [if_neg Bool.false_ne_true, bind_pure_eq_ok_iff]
    simp [selectList]

theorem count_eq_ok_iff {q : Sql} :
    k.count r = .ok q ↔
      r.validate = .ok () ∧ ∃ b, k.body r = .ok b ∧
        q = [.words "SELECT COUNT("] ++ distinctWords r ++ [.column 0 "id", .words ") AS C\n"]
          ++ b := by
  unfold count
  rw [check_bind_eq_ok_iff, bind_pure_eq_ok_iff]
  simp

/-! ## A request with all its parts -/

/-- Users, their orders and the items of these. -/
def shop : Compiler where
  catalog :=
    ((Catalog.empty.add "User" ⟨"users", (∅ : Sorted String DomainType).insert "name" .string⟩).add
      "Order" ⟨"orders", (∅ : Sorted String DomainType).insert "status" .string⟩).entity
      "Item" "items"
  sentinel := -1

end Compiler

/-- Joins, groups, a column on the right, quoted texts, numerals and lists. -/
def Request.sample : Request where
  classes := ["User", "Order", "Item"]
  fields := ⟨[(2, ["sku"]), (0, ["id", "name"])], by decide⟩
  links := ⟨[
    (1, ⟨.left, 0, "id", "user_id", [
      .comparison none ⟨1, "status", .equal, .literal (.text "it's")⟩,
      .group (some .and) [.comparison none ⟨1, "total", .greater, .column "user" "credit"⟩]]⟩),
    (2, ⟨.inner, 1, "id", "order_id", []⟩)], by decide⟩
  conditions := [
    .comparison none ⟨0, "id", .isIn, .list [.int 7, .text "8'"]⟩,
    .group (some .or) [
      .comparison none ⟨2, "price", .lessEqual, .literal (.text " 12abc")⟩,
      .comparison (some .and) ⟨0, "name", .likeAnyCase, .literal (.text "a\\")⟩]]
  order := [⟨1, "placed", some .year, .descending⟩]
  lines := 10
  offset := 0
  distinct := true
  aliases := (∅ : Sorted String Nat).insert "user" 0

end QueryCompiler
