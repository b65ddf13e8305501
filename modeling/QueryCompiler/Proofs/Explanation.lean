import QueryCompiler.Draft.Request
import QueryCompiler.Explain
import QueryCompiler.Proofs.Sql.Compilable

/-!
# Explanations and what they explain

An explanation walks all classes of a request, the compiler only the root and the linked tables. A
class that no link joins is no fault of a request, so the two walks differ there: the explanation
looks up a table that no statement needs, and calls it a root.

1. `outcome_explain`: an explanation fails for the first class without a table, and else for what
   the statements fail for.
2. `Lists.eq_tableText`, `log_explain_of_ok`: which lines it consists of.
3. `roleText_eq_root_iff`, `unlinked_iff_of_attached`: whatever is not linked is called a root, and
   among the tables of a statement that is the root alone.

Main statement: `explain_agrees_of_attached`, where every class is attached to the statement. The
difference without that: `exists_explain_fails`.
-/

namespace QueryCompiler

open Outcome

/-! ## Logs in sequence -/

namespace Logged

variable {ε α β : Type}

theorem outcome_bind (x : Logged ε α) (f : α → Logged ε β) :
    (x >>= f).outcome = (do (f (← x.outcome)).outcome) := by
  cases h : x.outcome with
  | error e => rw [log_bind_error f h, error_bind]
  | ok a => rw [log_bind_ok f h, ok_bind]

@[simp] theorem outcome_write (line : String) : (write line : Logged ε Unit).outcome = .ok () :=
  rfl

theorem write_bind (line : String) (f : Unit → Logged ε α) :
    (write line >>= f) = ⟨line :: (f ()).log, (f ()).outcome⟩ :=
  rfl

end Logged

theorem writeAll_eq (lines : List String) : writeAll lines = ⟨lines, .ok ()⟩ := by
  induction lines with
  | nil => rfl
  | cons line lines ih => rw [writeAll, Logged.write_bind, ih]

open Logged

variable {k : Compiler} {r : Request}

/-! ## Labels -/

theorem roleText_of_linked {table : Nat} {link : Link} (h : r.links.get? table = some link) :
    roleText r table = link.kind.keyword ++ " on " ++ columnText link.leftTable link.leftField
      ++ "=" ++ columnText table link.rightField := by
  rw [roleText, h]

theorem roleText_eq_root_iff {table : Nat} :
    roleText r table = "root" ↔ r.links.get? table = none := by
  cases h : r.links.get? table with
  | none =>
    rw [roleText, h]
    exact iff_of_true rfl rfl
  | some link =>
    refine iff_of_false ?_ nofun
    intro hroot
    -- the words of a link have blanks between them, the one word has none
    have hblank : ' ' ∈ (roleText r table).toList := by
      rw [roleText_of_linked h]
      simp only [String.toList_append, List.mem_append]
      exact .inl (.inl (.inl (.inr (by decide))))
    rw [hroot] at hblank
    exact absurd hblank (by decide)

/-- Of the tables of a statement the root alone has no link. -/
theorem unlinked_iff_of_attached (hr : r.Valid) {table : Nat} (h : r.isAttached table = true) :
    r.links.get? table = none ↔ table = 0 := by
  constructor
  · intro hnone
    rcases (Request.isAttached_iff.1 h).2 with h0 | hlinked
    · exact h0
    · rw [Sorted.contains, hnone] at hlinked
      cases hlinked
  · rintro rfl
    have hroot := hr.root_unlinked
    rwa [Sorted.contains, Option.isSome_eq_false_iff, Option.isNone_iff_eq_none] at hroot

/-! ## The tables -/

theorem eq_unknownClass_of_tableName {c : Catalog} {name : String} {e : Fault}
    (h : c.tableName name = .error e) : e = .unknownClass name := by
  unfold Catalog.tableName Catalog.find at h
  cases hn : c.entities.get? name with
  | none =>
    rw [hn] at h
    cases h
    rfl
  | some entity =>
    rw [hn] at h
    cases h

/-- The line of a table whose name is known. -/
def tableText (r : Request) (table : Nat) (name stored : String) : String :=
  s!"  T{table} " ++ name ++ " (" ++ stored ++ ") " ++ roleText r table

theorem tableLine_eq (table : Nat) (name : String) :
    tableLine k r table name = tableText r table name <$> k.catalog.tableName name := by
  unfold tableLine tableText
  cases k.catalog.tableName name <;> rfl

/-- How the lines of some classes come about, the first class standing for a given table. -/
inductive Lists (k : Compiler) (r : Request) : Nat → List String → Logged Fault Unit → Prop
  | done {table : Nat} : Lists k r table [] ⟨[], .ok ()⟩
  | unknown {table : Nat} {name : String} {names : List String}
      (h : k.catalog.tableName name = .error (.unknownClass name)) :
      Lists k r table (name :: names) ⟨[], .error (.unknownClass name)⟩
  | known {table : Nat} {name stored : String} {names : List String} {x : Logged Fault Unit}
      (h : k.catalog.tableName name = .ok stored) (hx : Lists k r (table + 1) names x) :
      Lists k r table (name :: names) ⟨tableText r table name stored :: x.log, x.outcome⟩

theorem lists_tableLines (k : Compiler) (r : Request) (table : Nat) (names : List String) :
    Lists k r table names (tableLines k r table names) := by
  induction names generalizing table with
  | nil => exact .done
  | cons name names ih =>
    rw [tableLines, tableLine_eq]
    cases hn : k.catalog.tableName name with
    | error e =>
      obtain rfl := eq_unknownClass_of_tableName hn
      exact .unknown hn
    | ok stored => exact .known hn (ih (table + 1))

namespace Lists

variable {table i : Nat} {names : List String} {x : Logged Fault Unit}

theorem outcome_eq (h : Lists k r table names x) :
    x.outcome = inOrder (names.map fun name => check (k.catalog.tableName name)) := by
  induction h with
  | done => rfl
  | unknown hn =>
    rw [List.map_cons, inOrder_cons, hn]
    rfl
  | known hn _ ih =>
    rw [List.map_cons, inOrder_cons, hn]
    exact ih

/-- A line is that of the class at its place. -/
theorem eq_tableText {line : String} (h : Lists k r table names x)
    (hline : x.log[i]? = some line) :
    ∃ name stored, names[i]? = some name ∧ k.catalog.tableName name = .ok stored ∧
      line = tableText r (table + i) name stored := by
  induction h generalizing i with
  | done => cases hline
  | unknown => cases hline
  | known hn _ ih =>
    cases i with
    | zero =>
      cases hline
      exact ⟨_, _, rfl, hn, rfl⟩
    | succ i =>
      obtain ⟨name, stored, hname, hstored, rfl⟩ := ih hline
      refine ⟨name, stored, hname, hstored, ?_⟩
      rw [Nat.add_right_comm]
      rfl

/-- The first class without a line is one without a table, and nothing comes after it. -/
theorem outcome_of_getElem?_length {name : String} (h : Lists k r table names x)
    (hname : names[x.log.length]? = some name) : x.outcome = .error (.unknownClass name) := by
  induction h with
  | done => cases hname
  | unknown =>
    cases hname
    rfl
  | known _ _ ih => exact ih hname

/-- If nothing fails, there is a line for each class. -/
theorem length_log (h : Lists k r table names x) (hok : x.outcome = .ok ()) :
    x.log.length = names.length := by
  induction h with
  | done => rfl
  | unknown => cases hok
  | known _ _ ih => rw [List.length_cons, List.length_cons, ih hok]

end Lists

/-! ## The whole -/

namespace Compiler

/-- The lines of all filters, each under its title. -/
def filterBlock (r : Request) : List String :=
  filterLines "Conditions" r.conditions
    ++ r.links.entries.flatMap fun e => filterLines s!"Join conditions T{e.1}" e.2.conditions

theorem outcome_statementLines (title : String) (q : Except Fault Sql) :
    (statementLines title q).outcome = check q := by
  cases q <;> rfl

/-- An explanation fails for the first class without a table, then for what the one statement or
the other fails for. -/
theorem outcome_explain (k : Compiler) (r : Request) :
    (k.explain r).outcome = inOrder
      (r.classes.map (fun name => check (k.catalog.tableName name))
        ++ [check (k.select r), check (k.count r)]) := by
  rw [inOrder_append, ← (lists_tableLines k r 0 r.classes).outcome_eq]
  simp only [explain, writeAll_eq, outcome_bind, outcome_write, ok_bind, outcome_statementLines]
  congr 1
  funext _
  cases k.select r with
  | error e => rfl
  | ok q => cases k.count r <;> rfl

theorem outcome_explain_eq_ok_iff :
    (k.explain r).outcome = .ok () ↔
      (∃ q, k.select r = .ok q) ∧ (∃ q, k.count r = .ok q) ∧
        ∀ name ∈ r.classes, ∃ stored, k.catalog.tableName name = .ok stored := by
  rw [outcome_explain, inOrder_eq_ok_iff]
  simp only [List.forall_mem_append, List.forall_mem_map, List.forall_mem_cons, check_eq_ok_iff,
    List.not_mem_nil, false_implies, implies_true, and_true]
  exact ⟨fun h => ⟨h.2.1, h.2.2, h.1⟩, fun h => ⟨h.2.2, h.1, h.2.1⟩⟩

theorem explain_of_error {e : Fault} (h : (tableLines k r 0 r.classes).outcome = .error e) :
    k.explain r = ⟨"Request" :: (tableLines k r 0 r.classes).log, .error e⟩ := by
  rw [explain, write_bind, log_bind_error _ h]

theorem exists_log_explain (k : Compiler) (r : Request) :
    ∃ rest, (k.explain r).log = "Request" :: (tableLines k r 0 r.classes).log ++ rest := by
  cases h : (tableLines k r 0 r.classes).outcome with
  | error e => exact ⟨[], by rw [explain_of_error h, List.append_nil]⟩
  | ok u => exact ⟨_, by rw [explain, write_bind, log_bind_ok _ h]; rfl⟩

theorem outcome_tableLines_of_ok (h : (k.explain r).outcome = .ok ()) :
    (tableLines k r 0 r.classes).outcome = .ok () := by
  rw [outcome_explain, inOrder_append, ← (lists_tableLines k r 0 r.classes).outcome_eq] at h
  obtain ⟨⟨⟩, hlines, -⟩ := bind_eq_ok_iff.1 h
  exact hlines

theorem log_explain_of_ok {q q' : Sql} (h : (k.explain r).outcome = .ok ())
    (hq : k.select r = .ok q) (hq' : k.count r = .ok q') :
    (k.explain r).log = "Request" :: (tableLines k r 0 r.classes).log ++ (filterBlock r
      ++ ["", "SELECT", q.toText, "", "COUNT", q'.toText]) := by
  have hlines := outcome_tableLines_of_ok h
  have hselect : statementLines "SELECT" (.ok q) = ⟨["", "SELECT", q.toText], .ok ()⟩ := rfl
  have hcount : statementLines "COUNT" (.ok q') = ⟨["", "COUNT", q'.toText], .ok ()⟩ := rfl
  rw [explain, write_bind, log_bind_ok _ hlines, writeAll_eq, writeAll_eq, hq, hq', hselect,
    hcount, log_bind_ok _ rfl, log_bind_ok _ rfl, log_bind_ok _ rfl]
  simp only [filterBlock, List.cons_append, List.append_assoc, List.nil_append]

/-- Where every class is attached, the statements need all tables that the explanation looks up. -/
theorem exists_tableName_of_count {q : Sql} (hq : k.count r = .ok q)
    (hall : ∀ table < r.classes.length, r.isAttached table = true) :
    ∀ name ∈ r.classes, ∃ stored, k.catalog.tableName name = .ok stored := by
  obtain ⟨hv, b, hb, -⟩ := count_eq_ok_iff.1 hq
  have hknown := ((exists_body_iff_compilable hv).1 ⟨b, hb⟩).known
  intro name hname
  obtain ⟨table, hlt, rfl⟩ := List.getElem_of_mem hname
  obtain ⟨stored, hstored⟩ := exists_tableName_iff.2 (hknown.of_isAttached (hall table hlt))
  rw [Compiler.tableName, Request.classOf_eq_ok_iff.2 (List.getElem?_eq_getElem hlt), ok_bind]
    at hstored
  exact ⟨stored, hstored⟩

/-- An explanation succeeds exactly if both statements can be written and there is a table for
each class, linked or not. It lists the classes in order, up to the first without a table, where it
ends, and calls root what is not linked; at the end stand both statements. So for a valid request
without loose classes it succeeds with the statements and has the one root. -/
theorem explain_agrees_of_attached (k : Compiler) (r : Request) :
    ((k.explain r).outcome = .ok () ↔
      (∃ q, k.select r = .ok q) ∧ (∃ q, k.count r = .ok q) ∧
        ∀ name ∈ r.classes, ∃ stored, k.catalog.tableName name = .ok stored) ∧
    (∃ lines rest, (k.explain r).log = "Request" :: lines ++ rest ∧
      (∀ (i : Nat) line, lines[i]? = some line → ∃ name stored, r.classes[i]? = some name ∧
        k.catalog.tableName name = .ok stored ∧ line = tableText r i name stored) ∧
      (∀ name, r.classes[lines.length]? = some name →
        rest = [] ∧ (k.explain r).outcome = .error (.unknownClass name)) ∧
      ∀ q q', (k.explain r).outcome = .ok () → k.select r = .ok q → k.count r = .ok q' →
        lines.length = r.classes.length ∧
          rest = filterBlock r ++ ["", "SELECT", q.toText, "", "COUNT", q'.toText]) ∧
    (∀ table, roleText r table = "root" ↔ r.links.get? table = none) ∧
    (r.validate = .ok () → (∀ table < r.classes.length, r.isAttached table = true) →
      ((k.explain r).outcome = .ok () ↔
        (∃ q, k.select r = .ok q) ∧ ∃ q, k.count r = .ok q) ∧
      ∀ table < r.classes.length, roleText r table = "root" ↔ table = 0) := by
  refine ⟨outcome_explain_eq_ok_iff, ?_, fun table => roleText_eq_root_iff, ?_⟩
  · obtain ⟨rest, hlog⟩ := exists_log_explain k r
    refine ⟨(tableLines k r 0 r.classes).log, rest, hlog, ?_, ?_, ?_⟩
    · intro i line hline
      have htext := (lists_tableLines k r 0 r.classes).eq_tableText hline
      rwa [Nat.zero_add] at htext
    · intro name hname
      have hstop := explain_of_error
        ((lists_tableLines k r 0 r.classes).outcome_of_getElem?_length hname)
      rw [hstop] at hlog ⊢
      exact ⟨List.append_right_eq_self.1 hlog.symm, rfl⟩
    · intro q q' hok hq hq'
      have hlength := (lists_tableLines k r 0 r.classes).length_log (outcome_tableLines_of_ok hok)
      rw [log_explain_of_ok hok hq hq'] at hlog
      exact ⟨hlength, (List.append_cancel_left hlog).symm⟩
  · intro hv hall
    have hr := Request.valid_of_validate hv
    constructor
    · rw [outcome_explain_eq_ok_iff]
      constructor
      · rintro ⟨hselect, hcount, -⟩
        exact ⟨hselect, hcount⟩
      · rintro ⟨hselect, q, hq⟩
        exact ⟨hselect, ⟨q, hq⟩, exists_tableName_of_count hq hall⟩
    · intro table hlt
      rw [roleText_eq_root_iff, unlinked_iff_of_attached hr (hall table hlt)]

/-- All tables of the sample are linked, and the shop knows them. -/
theorem explain_agrees_of_attached_sample :
    (shop.explain .sample).outcome = .ok () ∧ roleText .sample 0 = "root" ∧
      roleText .sample 2 ≠ "root" := by
  obtain ⟨-, -, -, hattached⟩ := explain_agrees_of_attached shop .sample
  obtain ⟨hok, hroot⟩ := hattached rfl (by decide)
  exact ⟨hok.2 ⟨⟨_, rfl⟩, _, rfl⟩, (hroot 0 (by decide)).2 rfl,
    fun h => absurd ((hroot 2 (by decide)).1 h) (by decide)⟩

/-- A request with two classes that no link joins, the second without a table. -/
def loose : String :=
  "\x7b\"classes\":[\"User\",\"Order\",\"Ghost\"],\"fields\":\x7b\"0\":[\"id\"]\x7d\x7d"

/-- Both statements of the request can be written, for they need one table only; the explanation
fails for the second loose class and calls the first one a root. -/
theorem exists_explain_fails :
    ∃ r, Request.parse .strict loose = .ok r ∧ (∃ q, shop.select r = .ok q) ∧
      (∃ q, shop.count r = .ok q) ∧ (shop.explain r).outcome ≠ .ok () ∧
      (shop.explain r).log
        = ["Request", "  T0 User (users) root", "  T1 Order (orders) root"] := by
  have hrun : ((fun r => ((shop.select r).toOption.isSome, (shop.count r).toOption.isSome,
      (shop.explain r).outcome.toOption.isSome, (shop.explain r).log)) <$>
      Request.parse .strict loose).toOption = some (true, true, false,
        ["Request", "  T0 User (users) root", "  T1 Order (orders) root"]) := by
    decide +kernel
  obtain ⟨r, hr, hparts⟩ := map_eq_ok_iff.1 (toOption_eq_some_iff.1 hrun)
  simp only [Prod.mk.injEq, Option.isSome_iff_exists, toOption_eq_some_iff] at hparts
  obtain ⟨hselect, hcount, hfails, hlog⟩ := hparts
  refine ⟨r, hr, hselect, hcount, ?_, hlog⟩
  intro hok
  rw [hok] at hfails
  cases hfails

end Compiler

end QueryCompiler
