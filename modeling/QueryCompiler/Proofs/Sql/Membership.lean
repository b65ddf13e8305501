import QueryCompiler.Proofs.Sql.StatementText
import QueryCompiler.Proofs.Stored.Image
import QueryCompiler.Proofs.ValidRequest

/-!
# Tests of membership

A test of membership is sent with an array of scalars, and what is written between its brackets is
one literal for each of them, in their order. A value is typed by its form alone, before its
operator is looked at: hence an array of two texts that begins with an alias is a column under these
operators too, and a column is no list.

1. `exists_element_of_isScalar`, `exists_elements`: scalars of JSON become literals, whatever their
   field is declared as.
2. `ofJson_array`: an array that is not of the form of a column is a list, whatever the aliases.
3. `comparison_list`, `comparison_column`: what a test of membership becomes with either value.

Main statement: `membership_toText`.
-/

namespace QueryCompiler

open Outcome

/-! ## Elements -/

namespace Json

/-- A truth value, a number or a text. -/
inductive IsScalar : Json → Prop
  | bool (b : Bool) : IsScalar (bool b)
  | int (n : Int) : IsScalar (int n)
  | float (x : Float) : IsScalar (float x)
  | text (s : String) : IsScalar (text s)

/-- A scalar as it stands in a list: truth as one, a number as its numeral, and a text in quotes. An
integer beyond a signed word has the numeral of a float. -/
def elementText : Json → String
  | bool b => if b then "1" else "0"
  | int n =>
    if -0x8000000000000000 ≤ n ∧ n < 0x8000000000000000 then toString n
    else Decimal.plain.text (Float.ofInt n)
  | float x => Decimal.plain.text x
  | text s => Literal.quote s
  | _ => ""

/-- Two texts, of which the first is an alias. -/
def IsColumn (aliases : Sorted String Nat) (items : List Json) : Prop :=
  ∃ aliasName field, items = [text aliasName, text field] ∧ aliases.contains aliasName = true

end Json

open Json

variable {aliases : Sorted String Nat} {items : List Json}

theorem Literal.ofFloat_of_isFinite {x : Float} (h : (Scalar.float x).IsFinite) :
    ofFloat x = .ok (decimal x) :=
  if_pos h

theorem exists_element_of_isScalar {j : Json} (hs : j.IsScalar) (hr : j.InRange) :
    ∃ s l, Scalar.ofJson j = .ok s ∧ Literal.element s = .ok l ∧ l.text = j.elementText := by
  cases hs with
  | bool b =>
    refine ⟨.bool b, .integer (if b then 1 else 0), rfl, rfl, ?_⟩
    cases b <;> rfl
  | text s => exact ⟨.text s, .quoted s, rfl, rfl, rfl⟩
  | float x =>
    cases hr with
    | float hx => exact ⟨.float x, .decimal x, rfl, Literal.ofFloat_of_isFinite hx, rfl⟩
  | int n =>
    rw [Scalar.ofJson, elementText]
    by_cases hn : -0x8000000000000000 ≤ n ∧ n < 0x8000000000000000
    · have hword : word? n = some (Int64.ofInt n) := if_pos hn
      rw [hword, if_pos hn]
      refine ⟨.int (.ofInt n), .integer (.ofInt n), rfl, rfl, ?_⟩
      rw [Literal.text, word?_eq_some_iff.1 hword]
    · have hword : word? n = none := if_neg hn
      rw [hword, if_neg hn]
      have hfinite := Scalar.isFinite_ofInt_of_word? (inRange_int_iff.1 hr) hword
      exact ⟨.float (.ofInt n), .decimal (.ofInt n), rfl, Literal.ofFloat_of_isFinite hfinite, rfl⟩

theorem exists_elements (h : ∀ j ∈ items, j.IsScalar ∧ j.InRange) :
    ∃ ss ls, items.mapM Scalar.ofJson = .ok ss ∧ ss.mapM Literal.element = .ok ls ∧
      ls.map Literal.text = items.map elementText := by
  induction items with
  | nil => exact ⟨[], [], rfl, rfl, rfl⟩
  | cons j items ih =>
    obtain ⟨⟨hs, hr⟩, hitems⟩ := List.forall_mem_cons.1 h
    obtain ⟨s, l, hread, hwrite, htext⟩ := exists_element_of_isScalar hs hr
    obtain ⟨ss, ls, hreads, hwrites, htexts⟩ := ih hitems
    refine ⟨s :: ss, l :: ls, ?_, ?_, ?_⟩
    · rw [List.mapM_cons, bind_bind_pure_eq_ok_iff]
      exact ⟨s, ss, hread, hreads, rfl⟩
    · rw [List.mapM_cons, bind_bind_pure_eq_ok_iff]
      exact ⟨l, ls, hwrite, hwrites, rfl⟩
    · rw [List.map_cons, List.map_cons, htext, htexts]

/-- The aliases do not matter for an array that does not begin with one. -/
theorem Value.ofJson_array (h : ¬ IsColumn aliases items) :
    Value.ofJson aliases (.array items) = .list <$> items.mapM Scalar.ofJson := by
  unfold Value.ofJson
  split
  case h_1 heq => cases heq
  case h_2 heq => cases heq
  case h_3 aliasName field heq =>
    cases heq
    have hname : ¬ aliases.contains aliasName = true := fun hname =>
      h ⟨aliasName, field, rfl, hname⟩
    rw [if_neg hname]
    rfl
  case h_4 heq =>
    cases heq
    rfl
  case h_5 hnot => exact absurd rfl (hnot items)

/-! ## Tests -/

variable {node : Node} {op : Operator}

theorem Operator.read_of_trim {s : String} (h : Text.trim s = op.symbol) : read s = .ok op := by
  have hsymbol : Text.trim op.symbol = op.symbol := by
    cases op <;> decide
  have hread : ofText? s = ofText? op.symbol := by
    unfold ofText?
    rw [h, hsymbol]
  rw [read_eq_ok_iff, hread, ofText?_symbol]

theorem Operator.takesValue_of_isMembership (h : op = .isIn ∨ op = .isNotIn) :
    op.takesValue = true := by
  rcases h with rfl | rfl <;> rfl

theorem Node.comparison_of_value {v : Value} (hread : Text.trim node.operator = op.symbol)
    (ht : op.takesValue = true) (hv : Value.ofJson aliases node.value = .ok v) :
    node.comparison aliases = .ok ⟨node.table, node.field, op, v⟩ := by
  rw [Node.comparison, Operator.read_of_trim hread, ok_bind, if_pos ht, hv]
  rfl

namespace Compiler

variable {k : Compiler} {r : Request} {table : Nat} {field : String}

/-- The text of a test: between the brackets the texts of the elements, or what stands for none. -/
def membershipText (k : Compiler) (column : String) (op : Operator) (elements : List String) :
    String :=
  column ++ " " ++ op.symbol ++ " (" ++
    (if elements = [] then toString k.sentinel.toInt else ",".intercalate elements) ++ ")"

theorem toText_listBody (k : Compiler) (ls : List Literal) :
    (k.listBody (ls.map fun l => [.literal l])).toText =
      if ls.map Literal.text = [] then toString k.sentinel.toInt
      else ",".intercalate (ls.map Literal.text) := by
  have htext : Sql.toText ∘ (fun l => [Piece.literal l]) = Literal.text := by
    funext l
    rw [Function.comp_apply, Sql.toText_cons, Sql.toText_nil, String.append_empty]
    rfl
  cases ls with
  | nil => rw [List.map_nil, List.map_nil, listBody, if_pos rfl, if_pos rfl, Sql.toText_cons,
      Sql.toText_nil, String.append_empty, Piece.text]
  | cons l ls =>
    have hsql : (l :: ls).map (fun l => [Piece.literal l]) ≠ [] := List.cons_ne_nil _ _
    have hne : (l :: ls).map Literal.text ≠ [] := List.cons_ne_nil _ _
    rw [listBody, if_neg hsql, if_neg hne, Sql.toText_separated, List.map_map, htext]

theorem comparison_list {ss : List Scalar} {ls : List Literal}
    (hop : op = .isIn ∨ op = .isNotIn) (hls : ss.mapM Literal.element = .ok ls) :
    ∃ q, k.comparison r ⟨table, field, op, .list ss⟩ = .ok q ∧
      q.toText = k.membershipText (columnText table field) op (ls.map Literal.text) := by
  have hoperand : k.operand r ⟨table, field, op, .list ss⟩
      = .ok (.list (ls.map fun l => [.literal l])) := by
    rw [operand, if_pos (Operator.takesValue_of_isMembership hop)]
    simp only [hls]
    rfl
  have hfragment (items : List Sql) : k.fragment [.column table field] op (.list items)
      = .ok ([.column table field] ++ .words (" " ++ op.symbol ++ " (") :: k.listBody items
          ++ [.words ")"]) := by
    rcases hop with rfl | rfl <;> rfl
  refine ⟨_, by rw [comparison, hoperand, ok_bind, hfragment], ?_⟩
  simp only [Sql.toText_append, Sql.toText_cons, Sql.toText_nil, toText_listBody, Piece.text,
    membershipText, String.append_empty, String.append_assoc]

/-- A column is no list, whatever its table and its name. -/
theorem comparison_column {aliasName name : String} (hop : op = .isIn ∨ op = .isNotIn) :
    ∃ cause, k.comparison r ⟨table, field, op, .column aliasName name⟩
      = .error (.invalidValue cause) := by
  have hsingle (q : Sql) : k.fragment [.column table field] op (.single q)
      = .error (.invalidValue (.listRequired op)) := by
    rcases hop with rfl | rfl <;> rfl
  rw [comparison, operand, if_pos (Operator.takesValue_of_isMembership hop)]
  cases ha : r.aliases.get? aliasName with
  | none =>
    have htable : r.tableOf aliasName = .error (.invalidValue (.unknownAlias aliasName)) := by
      rw [Request.tableOf, ha]
    exact ⟨.unknownAlias aliasName, by simp only [htable, error_bind]⟩
  | some table' =>
    simp only [Request.tableOf_eq_ok_iff.2 ha, ok_bind]
    by_cases hname : isIdentifier name = true
    · rw [if_pos hname]
      exact ⟨_, hsingle _⟩
    · rw [if_neg hname]
      exact ⟨_, rfl⟩

/-- A test of membership keeps the list of scalars that it is sent with: its text holds one literal
for each element, in order, or what stands for an empty list, and it is the same under all aliases.
The exception are two texts of which the first is an alias. They are a column, and the test fails.
Of numbers nothing is asked but that JSON has them. -/
theorem membership_toText (k : Compiler) (r : Request) (aliases : Sorted String Nat) (node : Node)
    (op : Operator) (items : List Json) (hop : op = .isIn ∨ op = .isNotIn)
    (hread : Text.trim node.operator = op.symbol) (hvalue : node.value = .array items)
    (hitems : ∀ j ∈ items, j.IsScalar ∧ j.InRange) :
    (¬ IsColumn aliases items →
      (∃ c q, node.comparison aliases = .ok c ∧ k.comparison r c = .ok q ∧
        q.toText = k.membershipText (columnText node.table node.field) op
          (items.map elementText)) ∧
      ∀ aliases', ¬ IsColumn aliases' items →
        node.comparison aliases' = node.comparison aliases) ∧
    (IsColumn aliases items →
      ∃ c cause, node.comparison aliases = .ok c ∧
        k.comparison r c = .error (.invalidValue cause)) := by
  have ht := Operator.takesValue_of_isMembership hop
  obtain ⟨ss, ls, hss, hls, htexts⟩ := exists_elements hitems
  have hlist {aliases : Sorted String Nat} (h : ¬ IsColumn aliases items) :
      node.comparison aliases = .ok ⟨node.table, node.field, op, .list ss⟩ := by
    refine Node.comparison_of_value hread ht ?_
    rw [hvalue, Value.ofJson_array h, hss]
    rfl
  constructor
  · intro h
    obtain ⟨q, hq, htext⟩ := comparison_list (k := k) (r := r) hop hls
    rw [htexts] at htext
    refine ⟨⟨_, q, hlist h, hq, htext⟩, fun aliases' h' => ?_⟩
    rw [hlist h, hlist h']
  · rintro ⟨aliasName, name, rfl, hname⟩
    obtain ⟨cause, hcause⟩ := comparison_column (k := k) (r := r) hop
    refine ⟨_, cause, Node.comparison_of_value hread ht ?_, hcause⟩
    rw [hvalue, Value.ofJson_column name hname]

/-- A list with an element of each kind but floats, an empty list, and a column. -/
theorem membership_toText_sample :
    let node (items : List Json) : Node := ⟨0, "name", " NOT IN", .array items, false, false, ""⟩
    (∃ c q, (node [.int (-7), .bool true, .text "it's"]).comparison Request.sample.aliases = .ok c ∧
      shop.comparison .sample c = .ok q ∧ q.toText = "T0.name NOT IN (-7,1,'it\\'s')") ∧
    (∃ c q, (node []).comparison Request.sample.aliases = .ok c ∧
      shop.comparison .sample c = .ok q ∧ q.toText = "T0.name NOT IN (-1)") ∧
    ∃ c cause, (node [.text "user", .text "admin"]).comparison Request.sample.aliases = .ok c ∧
      shop.comparison .sample c = .error (.invalidValue cause) := by
  intro node
  have hoperator : Text.trim " NOT IN" = Operator.isNotIn.symbol := by decide
  have htest (items : List Json) := membership_toText shop .sample Request.sample.aliases
    (node items) .isNotIn items (.inr rfl) hoperator rfl
  have hlist : ¬ IsColumn Request.sample.aliases [.int (-7), .bool true, .text "it's"] := by
    rintro ⟨_, _, h, -⟩
    cases h
  have hnil : ¬ IsColumn Request.sample.aliases [] := by
    rintro ⟨_, _, h, -⟩
    cases h
  have hscalars : ∀ j ∈ [.int (-7), .bool true, .text "it's"], IsScalar j ∧ InRange j := by
    simp only [List.forall_mem_cons]
    exact ⟨⟨.int _, .int (by decide)⟩, ⟨.bool _, .bool _⟩, ⟨.text _, .text _⟩, nofun⟩
  have htexts : ∀ j ∈ [.text "user", .text "admin"], IsScalar j ∧ InRange j := by
    simp only [List.forall_mem_cons]
    exact ⟨⟨.text _, .text _⟩, ⟨.text _, .text _⟩, nofun⟩
  obtain ⟨⟨c, q, hc, hq, htext⟩, -⟩ := (htest _ hscalars).1 hlist
  obtain ⟨⟨c', q', hc', hq', htext'⟩, -⟩ := (htest [] nofun).1 hnil
  exact ⟨⟨c, q, hc, hq, htext.trans (by decide)⟩, ⟨c', q', hc', hq', htext'.trans (by decide)⟩,
    (htest _ htexts).2 ⟨"user", "admin", rfl, rfl⟩⟩

/-- Whether two texts are a list depends on the aliases: one and the same test on a table of a valid
request is refused if the first of them names a table, and is written if it does not. -/
theorem exists_membership_refused :
    let node : Node := ⟨0, "name", "IN", .array [.text "user", .text "admin"], false, false, ""⟩
    Request.sample.validate = .ok () ∧ Request.sample.isAttached node.table = true ∧
      (∃ c cause, node.comparison Request.sample.aliases = .ok c ∧
        shop.comparison .sample c = .error (.invalidValue cause)) ∧
      ∃ c q, node.comparison ∅ = .ok c ∧ shop.comparison .sample c = .ok q ∧
        q.toText = "T0.name IN ('user','admin')" :=
  ⟨rfl, rfl, ⟨_, _, rfl, rfl⟩, _, _, rfl, rfl, rfl⟩

end Compiler

end QueryCompiler
