import QueryCompiler.Draft.Request
import QueryCompiler.Proofs.Json.Integers
import QueryCompiler.Proofs.Sql.Membership
import QueryCompiler.Proofs.Sql.Renderable

/-!
# Integers that are sent

An integer of a JSON text is a value of a comparison, or one of a list. It is typed without a look
at the field: beyond a signed word it becomes a float. For a field of integers the float is cast
back and held within the word, in a list it is written as it is. So an integer arrives as it was
sent exactly if it fits a word, and in a list if it fits and is not minus zero.

1. `exists_scalar_of_readsInteger`: what the reader makes of an integer is cast to the nearest word.
2. `elementText_of_word`, `exists_elementText_of_beyond`: what it is in a list.
3. `comparison_literal`: what a comparison with one value becomes. `comparison_integer`,
   `comparison_items`: so what one with an integer, or with an array that has it, becomes.

Main statements: `integer_toText`, `exists_integer_altered`.
-/

namespace QueryCompiler

open Outcome Decimal Json

/-! ## Scalars -/

variable {cs : List Char} {j : Json}

theorem word?_of_nearestWord {n : Int} (h : nearestWord n = n) :
    word? n = some (Int64.ofInt n) := by
  unfold nearestWord at h
  exact if_pos (by omega)

theorem largeFrom_ofInt {n : Int} (h : 2 ^ 63 ≤ n) (hlt : n < 2 ^ 64) :
    LargeFrom .positive 11 (Float.ofInt n).toModel.unpack := by
  obtain ⟨k, rfl⟩ := Int.eq_ofNat_of_zero_le (by omega : 0 ≤ n)
  have hlog : 63 ≤ k.log2 := (Nat.le_log2 (by omega)).2 (by omega)
  exact (largeFrom_ofNat (by omega) (by omega)).mono (by omega)

/-- What is read is cast to the nearest word. -/
theorem exists_scalar_of_readsInteger (h : ReadsInteger cs j) :
    ∃ s, Scalar.ofJson j = .ok s ∧ s.toInteger.toInt = nearestWord (valueOf cs) := by
  cases h with
  | word h _ =>
    have hword := word?_of_nearestWord h
    refine ⟨.int (.ofInt (valueOf cs)), by rw [Scalar.ofJson, hword]; rfl, ?_⟩
    rw [Scalar.toInteger, word?_eq_some_iff.1 hword, h]
  | unsigned h h' =>
    have hword : word? (valueOf cs) = none := if_neg (by omega)
    refine ⟨.float (.ofInt (valueOf cs)), by rw [Scalar.ofJson, hword]; rfl, ?_⟩
    rw [Scalar.toInteger, truncate_of_largeFrom (largeFrom_ofInt h h'), if_pos rfl, nearestWord]
    omega
  | minusZero h =>
    subst h
    exact ⟨.float (-0.0), rfl, by decide +kernel⟩
  | above h hx =>
    refine ⟨_, rfl, ?_⟩
    rw [Scalar.toInteger, truncate_of_largeFrom hx, if_pos rfl, nearestWord]
    omega
  | below h hx =>
    refine ⟨_, rfl, ?_⟩
    rw [Scalar.toInteger, truncate_of_largeFrom hx, if_neg (by decide), nearestWord]
    omega

/-! ## Elements of lists -/

/-- In a list an integer that fits a word is written as its numeral, but for minus zero. -/
theorem elementText_of_word (h : ReadsInteger cs j) (hword : nearestWord (valueOf cs) = valueOf cs)
    (hzero : cs ≠ ['-', '0']) : j.elementText = toString (valueOf cs) := by
  unfold nearestWord at hword
  cases h with
  | word => exact if_pos (by omega)
  | unsigned | above | below => omega
  | minusZero h => exact absurd h hzero

theorem elementText_of_minusZero (h : ReadsInteger ['-', '0'] j) : j.elementText = "-0" := by
  cases h with
  | word _ h' => exact absurd rfl h'
  | minusZero => exact plain_text_zero.2
  | unsigned h | above h | below h => exact absurd h (by decide)

/-- In a list any other integer is written as a float that a cast takes to the same word. -/
theorem exists_elementText_of_beyond (h : ReadsInteger cs j)
    (hbeyond : nearestWord (valueOf cs) ≠ valueOf cs) :
    ∃ x, (Scalar.float x).toInteger.toInt = nearestWord (valueOf cs) ∧
      j.elementText = plain.text x := by
  obtain ⟨s, hs, hcast⟩ := exists_scalar_of_readsInteger h
  cases h with
  | word h _ => exact absurd h hbeyond
  | unsigned h h' =>
    have hword : word? (valueOf cs) = none := if_neg (by omega)
    rw [Scalar.ofJson, hword] at hs
    cases hs
    exact ⟨_, hcast, if_neg (by omega)⟩
  | minusZero h | above h hx | below h hx =>
    cases hs
    exact ⟨_, hcast, rfl⟩

theorem ofJson_cases (j : Json) :
    (j.IsScalar ∧ ∃ s, Scalar.ofJson j = .ok s) ∨
      Scalar.ofJson j = .error (.invalidValue (.notScalar j)) := by
  cases j with
  | bool b => exact .inl ⟨.bool b, _, rfl⟩
  | int n => exact .inl ⟨.int n, _, rfl⟩
  | float x => exact .inl ⟨.float x, _, rfl⟩
  | text s => exact .inl ⟨.text s, _, rfl⟩
  | null | array _ | object _ _ | unreadable => exact .inr rfl

/-- A number is a literal, whatever the aliases. -/
theorem Value.ofJson_of_readsInteger {aliases : Sorted String Nat} (h : ReadsInteger cs j) :
    Value.ofJson aliases j = .literal <$> Scalar.ofJson j := by
  cases h <;> rfl

/-- An array with an integer is no column. -/
theorem not_isColumn_of_readsInteger {aliases : Sorted String Nat} {items : List Json}
    (h : ReadsInteger cs j) (hj : j ∈ items) : ¬ IsColumn aliases items := by
  rintro ⟨aliasName, field, rfl, -⟩
  have htext : j = .text aliasName ∨ j = .text field := by simpa using hj
  rcases htext with rfl | rfl
  · cases h
  · cases h

/-- The items of an array are scalars, or it cannot be read as a list. -/
theorem mapM_ofJson_cases (items : List Json) :
    (∀ j ∈ items, j.IsScalar) ∨
      ∃ cause, items.mapM Scalar.ofJson = .error (.invalidValue cause) := by
  cases hitems : items.mapM Scalar.ofJson with
  | error fault =>
    obtain ⟨j, -, hj⟩ := mapM_eq_error hitems
    rcases ofJson_cases j with ⟨-, s, hs⟩ | hfault
    · rw [hs] at hj
      cases hj
    · rw [hfault] at hj
      cases hj
      exact .inr ⟨_, rfl⟩
  | ok ss =>
    refine .inl fun j hj => ?_
    obtain ⟨s, hs⟩ := exists_mapM_iff.1 ⟨ss, hitems⟩ j hj
    rcases ofJson_cases j with ⟨h, -⟩ | hfault
    · exact h
    · rw [hfault] at hs
      cases hs

/-! ## Comparisons -/

/-- The text of a comparison with one value. -/
def Operator.binaryText (op : Operator) (column value : String) : String :=
  match op with
  | .like => column ++ " LIKE " ++ value
  | .likeAnyCase => "UPPER(" ++ column ++ ") LIKE UPPER(" ++ value ++ ")"
  | op => column ++ op.symbol ++ value

theorem Operator.takesValue_of_mem_binary {op : Operator} (h : op ∈ binary) :
    op.takesValue = true := by
  revert op
  decide

namespace Compiler

variable {k : Compiler} {r : Request} {table : Nat} {field : String} {op : Operator}

theorem comparison_literal {name : String} {type : DomainType} {s : Scalar} {l : Literal}
    (hop : op ∈ Operator.binary) (hclass : r.classOf table = .ok name)
    (htype : k.catalog.fieldType name field = .ok type) (hl : Literal.coerce type s = .ok l) :
    ∃ q, k.comparison r ⟨table, field, op, .literal s⟩ = .ok q ∧
      q.toText = op.binaryText (columnText table field) l.text := by
  have hoperand : k.operand r ⟨table, field, op, .literal s⟩ = .ok (.single [.literal l]) := by
    rw [operand, if_pos (Operator.takesValue_of_mem_binary hop)]
    simp only [hclass, htype, hl, ok_bind]
    rfl
  rw [comparison, hoperand, ok_bind]
  simp only [Operator.binary, List.mem_cons, List.not_mem_nil, or_false] at hop
  rcases hop with rfl | rfl | rfl | rfl | rfl | rfl | rfl | rfl
  all_goals
    refine ⟨_, rfl, ?_⟩
    simp [Sql.toText_cons, Piece.text, Operator.binaryText, String.append_assoc]

/-- An integer as the one value of a comparison with a field of integers. -/
theorem comparison_integer {aliases : Sorted String Nat} {node : Node} {name : String}
    (h : ReadsInteger cs j) (hread : Text.trim node.operator = op.symbol)
    (hop : op ∈ Operator.binary) (hvalue : node.value = j)
    (hclass : r.classOf node.table = .ok name)
    (htype : k.catalog.fieldType name node.field = .ok .integer) :
    ∃ c q, node.comparison aliases = .ok c ∧ k.comparison r c = .ok q ∧
      q.toText = op.binaryText (columnText node.table node.field)
        (toString (nearestWord (valueOf cs))) := by
  obtain ⟨s, hs, hcast⟩ := exists_scalar_of_readsInteger h
  have hliteral : Value.ofJson aliases node.value = .ok (.literal s) := by
    rw [hvalue, Value.ofJson_of_readsInteger h, hs]
    rfl
  have hinteger : Literal.coerce .integer s = .ok (.integer s.toInteger) := rfl
  obtain ⟨q, hq, htext⟩ := comparison_literal hop hclass htype hinteger
  refine ⟨_, q, Node.comparison_of_value hread (Operator.takesValue_of_mem_binary hop) hliteral,
    hq, ?_⟩
  rw [htext, Literal.text, hcast]

/-- An array with an integer, under a test of membership. -/
theorem comparison_items {aliases : Sorted String Nat} {node : Node} {items : List Json} {i : Nat}
    (h : ReadsInteger cs j) (hread : Text.trim node.operator = op.symbol)
    (hop : op = .isIn ∨ op = .isNotIn) (hvalue : node.value = .array items)
    (hitem : items[i]? = some j) (hrange : ∀ j ∈ items, j.InRange) :
    (∃ cause, node.comparison aliases = .error (.invalidValue cause)) ∨
      ∃ c q elements, node.comparison aliases = .ok c ∧ k.comparison r c = .ok q ∧
        q.toText = k.membershipText (columnText node.table node.field) op elements ∧
        elements.length = items.length ∧ elements[i]? = some j.elementText := by
  have ht := Operator.takesValue_of_isMembership hop
  have hlist : Value.ofJson aliases node.value = .list <$> items.mapM Scalar.ofJson := by
    rw [hvalue]
    exact Value.ofJson_array (not_isColumn_of_readsInteger h (List.mem_of_getElem? hitem))
  rcases mapM_ofJson_cases items with hscalars | ⟨cause, hcause⟩
  · obtain ⟨ss, ls, hss, hls, htexts⟩ := exists_elements fun j hj => ⟨hscalars j hj, hrange j hj⟩
    obtain ⟨q, hq, htext⟩ := comparison_list (k := k) (r := r) hop hls
    rw [htexts] at htext
    rw [hss] at hlist
    refine .inr ⟨_, q, _, Node.comparison_of_value hread ht hlist, hq, htext,
      List.length_map _, ?_⟩
    rw [List.getElem?_map, hitem]
    rfl
  · refine .inl ⟨cause, ?_⟩
    rw [Node.comparison, Operator.read_of_trim hread, ok_bind, if_pos ht, hlist, hcause]
    rfl

/-- An integer literal that JSON can read, as the one value of a comparison with a field of
integers: what is written is the numeral of the nearest word, and so that of the integer itself
exactly if it fits a word. As an item of an array under a test of membership: either an item of the
array is no scalar, or the integer is written as its numeral if it fits a word and is not minus
zero. Minus zero keeps its sign there, and for an integer beyond a word stands the text of a float
that a cast takes to the nearest word. -/
theorem integer_toText (k : Compiler) (r : Request) (aliases : Sorted String Nat) (node : Node)
    (op : Operator) (s : String) (j : Json) (hs : IsInteger s.toList)
    (hj : (read? s).bind canonical? = some j) (hread : Text.trim node.operator = op.symbol) :
    let n := valueOf s.toList
    (∀ name, op ∈ Operator.binary → node.value = j → r.classOf node.table = .ok name →
      k.catalog.fieldType name node.field = .ok .integer →
      ∃ c q, node.comparison aliases = .ok c ∧ k.comparison r c = .ok q ∧
        q.toText = op.binaryText (columnText node.table node.field) (toString (nearestWord n))) ∧
    ∀ (items : List Json) (i : Nat), op = .isIn ∨ op = .isNotIn → node.value = .array items →
      items[i]? = some j → (∀ j ∈ items, j.InRange) →
      (∃ cause, node.comparison aliases = .error (.invalidValue cause)) ∨
      ∃ c q elements, node.comparison aliases = .ok c ∧ k.comparison r c = .ok q ∧
        q.toText = k.membershipText (columnText node.table node.field) op elements ∧
        elements.length = items.length ∧
        (nearestWord n = n → s ≠ "-0" → elements[i]? = some (toString n)) ∧
        (s = "-0" → elements[i]? = some "-0") ∧
        (nearestWord n ≠ n → ∃ x, (Scalar.float x).toInteger.toInt = nearestWord n ∧
          elements[i]? = some (plain.text x)) := by
  intro n
  have hreads : ReadsInteger s.toList j := readsInteger_of_read? hs hj
  constructor
  · intro name hop hvalue hclass htype
    exact comparison_integer hreads hread hop hvalue hclass htype
  · intro items i hop hvalue hitem hrange
    obtain hfault | ⟨c, q, elements, hc, hq, htext, hlength, helement⟩ :=
      comparison_items hreads hread hop hvalue hitem hrange
    · exact .inl hfault
    · refine .inr ⟨c, q, elements, hc, hq, htext, hlength, ?_, ?_, ?_⟩
      · intro hword hzero
        have hzero : s.toList ≠ ['-', '0'] := fun h => hzero (String.toList_injective h)
        rw [helement, elementText_of_word hreads hword hzero]
      · rintro rfl
        rw [helement, elementText_of_minusZero hreads]
      · intro hbeyond
        obtain ⟨x, hcast, hfloat⟩ := exists_elementText_of_beyond hreads hbeyond
        exact ⟨x, hcast, by rw [helement, hfloat]⟩

/-- A class with a field of integers. -/
def ledger : Compiler where
  catalog := (Catalog.empty.entity "Entry" "entries").field "Entry" "total" .integer
  sentinel := -1

/-- An integer that fits a word stands as it was sent, for the field and in a list. -/
theorem integer_toText_sample :
    let node (operator : String) (value : Json) : Node :=
      ⟨0, "total", operator, value, false, false, ""⟩
    let r := Request.new "Entry" "entry"
    (∃ c q, (node "<=" (.int (-7))).comparison ∅ = .ok c ∧ ledger.comparison r c = .ok q ∧
      q.toText = "T0.total<=-7") ∧
    ∃ c q elements, (node "IN" (.array [.bool true, .int (-7)])).comparison ∅ = .ok c ∧
      ledger.comparison r c = .ok q ∧
      q.toText = ledger.membershipText (columnText 0 "total") .isIn elements ∧
      elements[1]? = some "-7" := by
  intro node r
  have hread : (read? (toString (-7 : Int))).bind canonical? = some (.int (-7)) := rfl
  have hvalue := integer_toText ledger r ∅ (node "<=" (.int (-7))) .lessEqual _ _
    (isInteger_toString _) hread (by decide)
  have hlist := integer_toText ledger r ∅ (node "IN" (.array [.bool true, .int (-7)])) .isIn _ _
    (isInteger_toString _) hread (by decide)
  constructor
  · obtain ⟨c, q, hc, hq, htext⟩ := hvalue.1 "Entry" (by decide) rfl rfl rfl
    exact ⟨c, q, hc, hq, htext.trans (by decide)⟩
  · have hrange : ∀ j ∈ [.bool true, .int (-7)], InRange j := by
      simp only [List.forall_mem_cons]
      exact ⟨.bool _, .int (by decide), nofun⟩
    have hok : ((node "IN" (.array [.bool true, .int (-7)])).comparison ∅).isOk = true := by decide
    obtain ⟨cause, hcause⟩ | ⟨c, q, elements, hc, hq, htext, -, hword, -⟩ :=
      hlist.2 _ 1 (.inl rfl) rfl rfl hrange
    · rw [hcause] at hok
      cases hok
    · exact ⟨c, q, elements, hc, hq, htext, hword (by decide) (by decide)⟩

/-- The least integer beyond a word, for the field. -/
def beyondWords : String :=
  "\x7b\"classes\":[\"Entry\"],\"fields\":\x7b\"0\":[\"id\"]\x7d,\"conditions\":[" ++
    "\x7b\"field\":\"total\",\"operator\":\"=\",\"value\":9223372036854775808\x7d]\x7d"

/-- The request is accepted, and another integer stands in the statement. In a list minus zero keeps
its sign, and the last digits of the greatest word without a sign are zeros. -/
theorem exists_integer_altered :
    (∃ r q, Request.parse .strict beyondWords = .ok r ∧ ledger.select r = .ok q ∧
      q.toText = "SELECT T0.id AS T0_id\nFROM entries T0\nWHERE T0.total=9223372036854775807") ∧
    ∃ j c q, (read? "[-0,18446744073709551615]").bind canonical? = some j ∧
      Node.comparison ∅ ⟨0, "total", "IN", j, false, false, ""⟩ = .ok c ∧
      ledger.comparison (Request.new "Entry" "entry") c = .ok q ∧
      q.toText = "T0.total IN (-0,18446744073709552000)" := by
  have hrun : (Sql.toText <$> (Request.parse .strict beyondWords >>= ledger.select)).toOption =
      some "SELECT T0.id AS T0_id\nFROM entries T0\nWHERE T0.total=9223372036854775807" := by
    decide +kernel
  have hlist : ((read? "[-0,18446744073709551615]").bind canonical?).bind (fun j =>
      (Sql.toText <$> (Node.comparison ∅ ⟨0, "total", "IN", j, false, false, ""⟩ >>=
        ledger.comparison (Request.new "Entry" "entry"))).toOption) =
      some "T0.total IN (-0,18446744073709552000)" := by
    decide +kernel
  constructor
  · obtain ⟨q, hq, htext⟩ := map_eq_ok_iff.1 (toOption_eq_some_iff.1 hrun)
    obtain ⟨r, hr, hq⟩ := bind_eq_ok_iff.1 hq
    exact ⟨r, q, hr, hq, htext⟩
  · obtain ⟨j, hj, hlist⟩ := Option.bind_eq_some_iff.1 hlist
    obtain ⟨q, hq, htext⟩ := map_eq_ok_iff.1 (toOption_eq_some_iff.1 hlist)
    obtain ⟨c, hc, hq⟩ := bind_eq_ok_iff.1 hq
    exact ⟨j, c, q, hj, hc, hq, htext⟩

end Compiler

end QueryCompiler
