import QueryCompiler.Proofs.Filter
import QueryCompiler.Proofs.Sql.LiteralText
import QueryCompiler.Proofs.Sql.Parts
import QueryCompiler.Proofs.Text.Brackets

/-!
# Statements and brackets

Whatever a compiler writes on its own account contains no quote, and its brackets come in pairs,
if the names of tables and fields have neither. The only quotes of a statement are therefore those
of its literals, each of which closes what it opens, and a bracket inside a literal does not count.

1. `Nests.append` and `Nests.add`: parts one after the other, and brackets around a part.
2. `nests_fragment`: a comparison closes what it opens, whatever its operator and operand.
3. `nests_conditions`: so does a filter, by induction into its groups.
4. `nests_select` and `nests_count`: so do the statements.

Main statement: `brackets_balance`.
-/

namespace QueryCompiler

open Outcome Text Predicate

/-! ## Names -/

namespace Catalog

/-- The tables that classes stand for. -/
def tableNames (c : Catalog) : List String := c.entities.entries.map (·.2.table)

theorem mem_tableNames {c : Catalog} {name table : String} (h : c.tableName name = .ok table) :
    table ∈ c.tableNames := by
  obtain ⟨entity, hentity, rfl⟩ := map_eq_ok_iff.1 h
  unfold find at hentity
  cases hget : c.entities.get? name with
  | none =>
    rw [hget] at hentity
    cases hentity
  | some e =>
    rw [hget] at hentity
    cases hentity
    exact List.mem_map_of_mem (Sorted.get?_eq_some_iff.1 hget)

end Catalog

/-- The fields that a join names. -/
def Link.fieldNames (l : Link) : List String :=
  l.leftField :: l.rightField :: (comparisons l.conditions).map (·.field)

/-- The fields that a request names: in joins, in the filter, as selected fields and sort keys. -/
def Request.fieldNames (r : Request) : List String :=
  r.links.entries.flatMap (fun e => e.2.fieldNames) ++ (comparisons r.conditions).map (·.field)
    ++ r.fields.entries.flatMap (fun e => e.2) ++ r.order.map (·.field)

/-- What holds of all fields that a request names holds in each of the places that name them. -/
theorem Request.forall_mem_fieldNames {r : Request} {P : String → Prop}
    (h : ∀ field ∈ r.fieldNames, P field) :
    (∀ e ∈ r.links.entries, ∀ field ∈ e.2.fieldNames, P field) ∧
      (∀ c ∈ comparisons r.conditions, P c.field) ∧
      (∀ e ∈ r.fields.entries, ∀ field ∈ e.2, P field) ∧ ∀ term ∈ r.order, P term.field := by
  unfold fieldNames at h
  rw [List.forall_mem_append, List.forall_mem_append, List.forall_mem_append,
    List.forall_mem_map, List.forall_mem_map] at h
  obtain ⟨⟨⟨hlinks, hconditions⟩, hfields⟩, horder⟩ := h
  refine ⟨fun e he field hfield => ?_, hconditions, fun e he field hfield => ?_, horder⟩
  · exact hlinks field (List.mem_flatMap.2 ⟨e, he, hfield⟩)
  · exact hfields field (List.mem_flatMap.2 ⟨e, he, hfield⟩)

namespace Text

/-- Neither a quote nor a bracket is among the characters. Outside literals a backslash is a
character like others, so it does not matter. -/
def IsBare (cs : List Char) : Prop := ∀ c ∈ cs, c ∉ ['(', ')', '\'', '"']

instance (cs : List Char) : Decidable (IsBare cs) :=
  List.decidableBAll (fun c => c ∉ ['(', ')', '\'', '"']) cs

variable {cs cs' : List Char}

theorem isBare_append : IsBare (cs ++ cs') ↔ IsBare cs ∧ IsBare cs' := List.forall_mem_append

theorem isPlain_of_isBare (h : IsBare cs) : IsPlain cs := by
  intro c hc
  have := h c hc
  apply Quote.ofChar?_eq_none
  · rintro rfl
    exact this (by decide)
  · rintro rfl
    exact this (by decide)

theorem openAfter_of_isBare (h : IsBare cs) (n : Nat) : openAfter n cs = some n := by
  refine openAfter_of_forall (fun c hc => ?_) n
  have := h c hc
  constructor
  · rintro rfl
    exact this (by decide)
  · rintro rfl
    exact this (by decide)

/-- What numerals are written with. -/
theorem forall_mem_of_isNumeral (h : IsNumeral cs) :
    ∀ c ∈ cs, c.isDigit = true ∨ c = '.' ∨ c = '-' := by
  have hunsigned {cs : List Char} (h : IsUnsigned cs) :
      ∀ c ∈ cs, c.isDigit = true ∨ c = '.' ∨ c = '-' := by
    cases h with
    | whole h => exact fun c hc => .inl (h.2 c hc)
    | point h h' =>
      rw [List.forall_mem_append, List.forall_mem_cons]
      exact ⟨fun c hc => .inl (h.2 c hc), .inr (.inl rfl), fun c hc => .inl (h'.2 c hc)⟩
  cases h with
  | positive h => exact hunsigned h
  | negative h => exact List.forall_mem_cons.2 ⟨.inr (.inr rfl), hunsigned h⟩

theorem isBare_of_isNumeral (h : IsNumeral cs) : IsBare cs := by
  intro c hc hmem
  have hdigit := forall_mem_of_isNumeral h c hc
  simp only [List.mem_cons, List.not_mem_nil, or_false] at hmem
  rcases hmem with rfl | rfl | rfl | rfl <;> exact absurd hdigit (by decide)

theorem isBare_nat (n : Nat) : IsBare (toString n).toList := by
  rw [Nat.toString_eq_repr, Nat.toList_repr]
  exact isBare_of_isNumeral (.positive (.whole (isDigits_toDigits n)))

end Text

/-- What identifiers are written with. -/
theorem forall_mem_of_isIdentifier {name : String} (h : isIdentifier name = true) :
    ∀ c ∈ name.toList, (isIdentifierStart c || c.isDigit) = true := by
  unfold isIdentifier at h
  cases hcs : name.toList with
  | nil => exact fun _ hc => absurd hc List.not_mem_nil
  | cons c cs =>
    rw [hcs, Bool.and_eq_true, List.all_eq_true] at h
    rw [List.forall_mem_cons, h.1]
    exact ⟨rfl, h.2⟩

theorem isBare_of_isIdentifier {name : String} (h : isIdentifier name = true) :
    IsBare name.toList := by
  intro c hc hmem
  have hchar := forall_mem_of_isIdentifier h c hc
  simp only [List.mem_cons, List.not_mem_nil, or_false] at hmem
  rcases hmem with rfl | rfl | rfl | rfl <;> cases hchar

/-! ## Parts of a statement -/

/-- A piece has quotes only if it is a literal, which then closes what it opens. -/
def Piece.IsTidy : Piece → Prop
  | .literal l => IsLiteral l.text.toList
  | p => IsPlain p.text.toList

theorem Piece.IsTidy.scan {p : Piece} (h : p.IsTidy) :
    (Mode.outside.scan p.text.toList).inLiteral = false := by
  cases p with
  | literal l => exact scan_of_isLiteral h
  | words _ | table _ _ | column _ _ | label _ _ => exact Mode.scan_of_plain rfl h

namespace Sql

theorem toText_singleton (p : Piece) : toText [p] = p.text := by
  simp [toText]

/-- Tidy pieces leave a scanner outside that comes from there. -/
theorem scan_of_tidy {q : Sql} (h : ∀ p ∈ q, p.IsTidy) :
    (Mode.outside.scan q.toText.toList).inLiteral = false := by
  induction q with
  | nil => rfl
  | cons p q ih =>
    obtain ⟨hp, hq⟩ := List.forall_mem_cons.1 h
    rw [toText_cons, String.toList_append, Mode.scan_append, Mode.inLiteral_scan_congr hp.scan]
    exact ih hq

/-- Some tidy pieces before which `a` brackets are open, and behind which `b` are. -/
structure Nests (a b : Nat) (q : Sql) : Prop where
  tidy : ∀ p ∈ q, p.IsTidy
  brackets : openAfter a (Mode.outside.visible q.toText.toList) = some b

variable {a b c : Nat} {q q' : Sql} {p : Piece}

theorem nests_nil : Nests a a [] := ⟨fun _ h => absurd h List.not_mem_nil, rfl⟩

theorem Nests.append (h : q.Nests a b) (h' : q'.Nests b c) : (q ++ q').Nests a c := by
  refine ⟨List.forall_mem_append.2 ⟨h.tidy, h'.tidy⟩, ?_⟩
  rw [toText_append, String.toList_append, Mode.visible_append (scan_of_tidy h.tidy),
    openAfter_append, h.brackets]
  exact h'.brackets

theorem nests_cons (hp : Nests a b [p]) (hq : q.Nests b c) : Nests a c (p :: q) := hp.append hq

theorem Nests.add (h : q.Nests a b) (n : Nat) : q.Nests (a + n) (b + n) :=
  ⟨h.tidy, openAfter_add h.brackets n⟩

theorem nests_words {s : String} (h : IsPlain s.toList) (hb : openAfter a s.toList = some b) :
    Nests a b [.words s] := by
  refine ⟨List.forall_mem_singleton.2 h, ?_⟩
  rw [toText_singleton, Piece.text, Mode.visible_of_plain rfl h]
  exact hb

theorem nests_of_isBare (hp : p.IsTidy) (h : IsBare p.text.toList) : Nests a a [p] := by
  refine ⟨List.forall_mem_singleton.2 hp, ?_⟩
  rw [toText_singleton, Mode.visible_of_plain rfl (isPlain_of_isBare h)]
  exact openAfter_of_isBare h a

theorem nests_literal {l : Literal} (h : IsLiteral l.text.toList) : Nests a a [.literal l] := by
  rcases id h with hn | hq
  · exact nests_of_isBare h (isBare_of_isNumeral hn)
  · refine ⟨List.forall_mem_singleton.2 h, ?_⟩
    rw [toText_singleton, Piece.text, Mode.visible_of_isQuoted hq]
    exact openAfter_of_forall (List.forall_mem_singleton.2 (by decide)) a

theorem nests_column {table : Nat} {field : String} (h : IsBare field.toList) :
    Nests a a [.column table field] := by
  have hbare : IsBare (Piece.column table field).text.toList := by
    show IsBare (columnText table field).toList
    unfold columnText
    simp only [String.toList_append, isBare_append]
    exact ⟨⟨⟨by decide, isBare_nat table⟩, by decide⟩, h⟩
  exact nests_of_isBare (isPlain_of_isBare hbare) hbare

theorem nests_label {table : Nat} {field : String} (h : IsBare field.toList) :
    Nests a a [.label table field] := by
  have hbare : IsBare (Piece.label table field).text.toList := by
    show IsBare (labelText table field).toList
    unfold labelText
    simp only [String.toList_append, isBare_append]
    exact ⟨⟨⟨by decide, isBare_nat table⟩, by decide⟩, h⟩
  exact nests_of_isBare (isPlain_of_isBare hbare) hbare

theorem nests_table {name : String} {index : Nat} (h : IsBare name.toList) :
    Nests a a [.table name index] := by
  have hbare : IsBare (Piece.table name index).text.toList := by
    show IsBare (name ++ s!" T{index}").toList
    simp only [String.toList_append, isBare_append]
    exact ⟨h, by decide, isBare_nat index⟩
  exact nests_of_isBare (isPlain_of_isBare hbare) hbare

/-- Parts between commas. -/
theorem nests_separated {qs : List Sql} (h : ∀ q ∈ qs, Nests a a q) :
    Nests a a (separated "," qs) := by
  have hcomma : Nests a a [.words ","] :=
    nests_words (by decide) (openAfter_of_isBare (by decide) a)
  induction qs with
  | nil => exact nests_nil
  | cons q qs ih =>
    obtain ⟨hq, hqs⟩ := List.forall_mem_cons.1 h
    cases qs with
    | nil =>
      rw [separated_singleton]
      exact hq
    | cons q' qs =>
      rw [separated_cons_cons]
      exact hq.append (nests_cons hcomma (ih hqs))

end Sql

/-! ## Conditions -/

/-- The brackets of an operand come in pairs. -/
def Operand.Nests : Operand → Prop
  | none => True
  | single q => q.Nests 0 0
  | list items => ∀ q ∈ items, q.Nests 0 0

namespace Compiler

open Sql

variable {k : Compiler} {r : Request} {c : Comparison} {q : Sql}

theorem nests_of_operandCase {o : Operand} (h : OperandCase r c o) : o.Nests := by
  cases h with
  | none _ => trivial
  | literal _ _ hl => exact nests_literal (Literal.isLiteral_of_renders (.inr ⟨_, hl⟩))
  | column _ _ _ hf => exact nests_column (isBare_of_isIdentifier hf)
  | list _ _ hl =>
    have hls := Literal.forall_isLiteral (Literal.forall_renders_of_mapM hl)
    intro q hq
    obtain ⟨l, hmem, rfl⟩ := List.mem_map.1 hq
    exact nests_literal (hls l hmem)

theorem nests_listBody {items : List Sql} (h : ∀ q ∈ items, q.Nests 0 0) :
    (k.listBody items).Nests 0 0 := by
  unfold listBody
  by_cases hitems : items = []
  · have hbare := isBare_of_isNumeral (isNumeral_int k.sentinel.toInt)
    rw [if_pos hitems]
    exact nests_words (isPlain_of_isBare hbare) (openAfter_of_isBare hbare 0)
  · rw [if_neg hitems]
    exact nests_separated h

theorem nests_fragment {column : Sql} {op : Operator} {o : Operand} (hcolumn : column.Nests 0 0)
    (ho : o.Nests) (h : k.fragment column op o = .ok q) : q.Nests 0 0 := by
  have hclose : Nests 1 0 [.words ")"] := nests_words (by decide) (by decide)
  cases fragmentCase h with
  | test =>
    have htest : Nests 0 0 [.words (" " ++ op.symbol)] := by
      cases op <;> exact nests_words (by decide) (by decide)
    exact hcolumn.append htest
  | binary =>
    have hsymbol : Nests 0 0 [.words op.symbol] := by
      cases op <;> exact nests_words (by decide) (by decide)
    exact hcolumn.append (nests_cons hsymbol ho)
  | like => exact hcolumn.append (nests_cons (nests_words (by decide) (by decide)) ho)
  | likeAnyCase =>
    have hfirst : Nests 0 1 [.words "UPPER("] := nests_words (by decide) (by decide)
    have hsecond : Nests 1 1 [.words ") LIKE UPPER("] := nests_words (by decide) (by decide)
    exact ((nests_cons hfirst (hcolumn.add 1)).append (nests_cons hsecond (ho.add 1))).append hclose
  | membership =>
    have hopen : Nests 0 1 [.words (" " ++ op.symbol ++ " (")] := by
      cases op <;> exact nests_words (by decide) (by decide)
    exact (hcolumn.append (nests_cons hopen ((nests_listBody ho).add 1))).append hclose

theorem nests_comparison (hc : IsBare c.field.toList) (h : k.comparison r c = .ok q) :
    q.Nests 0 0 := by
  obtain ⟨o, ho, hq⟩ := bind_eq_ok_iff.1 h
  exact nests_fragment (nests_column hc) (nests_of_operandCase (operandCase ho)) hq

theorem nests_connectorSql (connector : Option Connector) :
    (connectorSql connector).Nests 0 0 := by
  cases connector with
  | none => exact nests_nil
  | some connector => cases connector <;> exact nests_words (by decide) (by decide)

/-- Some part in brackets. -/
theorem nests_brackets {s : String} (hs : IsPlain s.toList) (hopen : openAfter 0 s.toList = some 1)
    (hq : q.Nests 0 0) : Nests 0 0 ([.words s] ++ q ++ [.words ")"]) :=
  ((nests_words hs hopen).append (hq.add 1)).append (nests_words (by decide) (by decide))

/-- The brackets of a filter come in pairs, if its fields are bare. -/
theorem nests_conditions {ps : List Predicate} (hps : ∀ c ∈ comparisons ps, IsBare c.field.toList)
    (h : k.conditions r ps = .ok q) : q.Nests 0 0 := by
  induction ps using sequenceInduction generalizing q with
  | nil =>
    cases h
    exact nests_nil
  | comparison connector c ps ih =>
    rw [comparisons_comparison_cons, List.forall_mem_cons] at hps
    obtain ⟨q₁, q₂, h₁, h₂, rfl⟩ := conditions_comparison_eq_ok_iff.1 h
    exact ((nests_connectorSql connector).append (nests_comparison hps.1 h₁)).append (ih hps.2 h₂)
  | group connector children ps ihc ih =>
    rw [comparisons_group_cons, List.forall_mem_append] at hps
    obtain ⟨q₁, q₂, h₁, h₂, rfl⟩ := conditions_group_eq_ok_iff.1 h
    have hgroup := nests_brackets (s := "(") (by decide) (by decide) (ihc hps.1 h₁)
    have := ((nests_connectorSql connector).append hgroup).append (ih hps.2 h₂)
    simpa only [List.append_assoc] using this

/-! ## Statements -/

section

variable (hk : ∀ name ∈ k.catalog.tableNames, IsBare name.toList)
  (hr : ∀ field ∈ r.fieldNames, IsBare field.toList)

include hk

theorem isBare_tableName {table : Nat} {name : String} (h : k.tableName r table = .ok name) :
    IsBare name.toList := by
  obtain ⟨_, -, h⟩ := bind_eq_ok_iff.1 h
  exact hk name (Catalog.mem_tableNames h)

theorem nests_joinLine {table : Nat} {link : Link}
    (hlink : ∀ field ∈ link.fieldNames, IsBare field.toList)
    (h : k.joinLine r table link = .ok q) : q.Nests 0 0 := by
  obtain ⟨name, q₁, hname, hq₁, rfl⟩ := joinLine_eq_ok_iff.1 h
  rw [Link.fieldNames, List.forall_mem_cons, List.forall_mem_cons, List.forall_mem_map] at hlink
  obtain ⟨hleft, hright, hconditions⟩ := hlink
  have hkind : Nests 0 0 [.words ("\n" ++ link.kind.keyword ++ " ")] := by
    cases link.kind <;> exact nests_words (by decide) (by decide)
  have hon : Nests 0 1 [.words " ON ("] := nests_words (by decide) (by decide)
  have hequals : Nests 1 1 [.words "="] := nests_words (by decide) (by decide)
  have hhead : (joinHead name table link).Nests 0 1 :=
    nests_cons hkind <| nests_cons (nests_table (isBare_tableName hk hname)) <|
      nests_cons hon <| nests_cons (nests_column hleft) <|
        nests_cons hequals (nests_column hright)
  have hrest : q₁.Nests 0 0 := by
    rcases linkConditions_eq_ok_iff.1 hq₁ with ⟨-, rfl⟩ | ⟨-, q₂, hq₂, rfl⟩
    · exact nests_nil
    · exact nests_brackets (by decide) (by decide) (nests_conditions hconditions hq₂)
  exact (hhead.append (hrest.add 1)).append (nests_words (by decide) (by decide))

theorem nests_joinLines {es : List (Nat × Link)}
    (hes : ∀ e ∈ es, ∀ field ∈ e.2.fieldNames, IsBare field.toList)
    (h : k.joinLines r es = .ok q) : q.Nests 0 0 := by
  induction es generalizing q with
  | nil =>
    cases h
    exact nests_nil
  | cons e es ih =>
    rw [List.forall_mem_cons] at hes
    obtain ⟨q₁, q₂, h₁, h₂, rfl⟩ := joinLines_cons_eq_ok_iff.1 h
    exact (nests_joinLine hk hes.1 h₁).append (ih hes.2 h₂)

include hr

theorem nests_body (h : k.body r = .ok q) : q.Nests 0 0 := by
  obtain ⟨source, line, hs, hl, rfl⟩ := body_eq_ok_iff.1 h
  obtain ⟨name, lines, hname, hlines, rfl⟩ := source_eq_ok_iff.1 hs
  obtain ⟨hlinks, hconditions, -, -⟩ := Request.forall_mem_fieldNames hr
  have hfrom : Nests 0 0 [.words "FROM "] := nests_words (by decide) (by decide)
  have hsource : Nests 0 0 ([.words "FROM ", .table name 0] ++ lines) :=
    (nests_cons hfrom (nests_table (isBare_tableName hk hname))).append
      (nests_joinLines hk hlinks hlines)
  refine hsource.append ?_
  rcases filterLine_eq_ok_iff.1 hl with ⟨-, rfl⟩ | ⟨-, q₁, hq₁, rfl⟩
  · exact nests_nil
  · exact (nests_words (by decide) (by decide)).append (nests_conditions hconditions hq₁)

omit hk

theorem nests_selectList : (selectList r).Nests 0 0 := by
  refine nests_separated fun q hq => ?_
  obtain ⟨s, hs, rfl⟩ := List.mem_map.1 hq
  have hfield : IsBare s.2.toList := by
    obtain ⟨e, he, hs⟩ := List.mem_flatMap.1 hs
    obtain ⟨field, hfield, rfl⟩ := List.mem_map.1 hs
    exact (Request.forall_mem_fieldNames hr).2.2.1 e he field hfield
  have has : Nests 0 0 [.words " AS "] := nests_words (by decide) (by decide)
  exact nests_cons (nests_column hfield) (nests_cons has (nests_label hfield))

theorem nests_orderItem {term : OrderTerm} (hterm : term ∈ r.order) :
    (orderItem term).Nests 0 0 := by
  have hfield : IsBare term.field.toList := (Request.forall_mem_fieldNames hr).2.2.2 term hterm
  have hdirection : Nests 0 0 [.words (" " ++ term.direction.keyword)] := by
    cases term.direction <;> exact nests_words (by decide) (by decide)
  unfold orderItem
  cases term.part with
  | none => exact nests_cons (nests_column hfield) hdirection
  | some part =>
    have hpart : Nests 0 1 [.words (part.keyword ++ "(")] := by
      cases part <;> exact nests_words (by decide) (by decide)
    have hclose : Nests 1 0 [.words ")"] := nests_words (by decide) (by decide)
    exact nests_cons hpart <| nests_cons (nests_column hfield) <| nests_cons hclose hdirection

theorem nests_orderLine : (orderLine r).Nests 0 0 := by
  unfold orderLine
  split
  · exact nests_nil
  · refine nests_cons (nests_words (by decide) (by decide)) (nests_separated fun q hq => ?_)
    obtain ⟨term, hterm, rfl⟩ := List.mem_map.1 hq
    exact nests_orderItem hr hterm

omit hr

theorem nests_limitLine : (limitLine r).Nests 0 0 := by
  unfold limitLine
  split
  · exact nests_nil
  · have hbare : IsBare s!"\nLIMIT {r.offset.toNat},{r.lines.toNat}".toList := by
      simp only [String.toList_append, isBare_append]
      exact ⟨⟨⟨by decide, isBare_nat _⟩, by decide⟩, isBare_nat _⟩
    exact nests_words (isPlain_of_isBare hbare) (openAfter_of_isBare hbare 0)

theorem nests_distinctWords (a : Nat) : (distinctWords r).Nests a a := by
  unfold distinctWords
  split
  · exact nests_words (by decide) (openAfter_of_isBare (by decide) a)
  · exact nests_nil

include hk hr

theorem nests_select (h : k.select r = .ok q) : q.Nests 0 0 := by
  obtain ⟨-, -, b, hb, rfl⟩ := select_eq_ok_iff.1 h
  have hselect : Nests 0 0 [.words "SELECT "] := nests_words (by decide) (by decide)
  have hnewline : Nests 0 0 [.words "\n"] := nests_words (by decide) (by decide)
  have hhead : Nests 0 0 ([.words "SELECT "] ++ distinctWords r ++ selectList r ++ [.words "\n"]) :=
    ((hselect.append (nests_distinctWords 0)).append (nests_selectList hr)).append hnewline
  exact ((hhead.append (nests_body hk hr hb)).append (nests_orderLine hr)).append nests_limitLine

theorem nests_count (h : k.count r = .ok q) : q.Nests 0 0 := by
  obtain ⟨-, b, hb, rfl⟩ := count_eq_ok_iff.1 h
  have hcount : Nests 0 1 [.words "SELECT COUNT("] := nests_words (by decide) (by decide)
  have hcolumn : Nests 1 1 [.column 0 "id"] := nests_column (by decide)
  have hname : Nests 1 0 [.words ") AS C\n"] := nests_words (by decide) (by decide)
  exact ((hcount.append (nests_distinctWords 1)).append (nests_cons hcolumn hname)).append
    (nests_body hk hr hb)

end

/-- In every statement as many brackets close as open outside literals, none closes that is not
open, and no literal is left open, whatever the values of the request are. -/
theorem brackets_balance (k : Compiler) (r : Request)
    (hk : ∀ name ∈ k.catalog.tableNames, IsBare name.toList)
    (hr : ∀ field ∈ r.fieldNames, IsBare field.toList) (q : Sql)
    (h : k.select r = .ok q ∨ k.count r = .ok q) :
    (Mode.outside.visible q.toText.toList).count '('
        = (Mode.outside.visible q.toText.toList).count ')' ∧
      (∀ before, before <+: q.toText.toList →
        (Mode.outside.visible before).count ')' ≤ (Mode.outside.visible before).count '(') ∧
      (Mode.outside.scan q.toText.toList).inLiteral = false := by
  have hq : q.Nests 0 0 := h.elim (nests_select hk hr) (nests_count hk hr)
  refine ⟨?_, fun before hbefore => ?_, scan_of_tidy hq.tidy⟩
  · have := count_of_openAfter hq.brackets
    omega
  · have hvisible : Mode.outside.visible before <+: Mode.outside.visible q.toText.toList := by
      obtain ⟨after, hafter⟩ := hbefore
      rw [← hafter, Mode.visible_scan]
      exact List.prefix_append _ _
    have := count_le_of_openAfter hq.brackets hvisible
    omega

/-- Brackets, quotes and backslashes in all values, and a blank in the name of a field. -/
def unpaired : Request :=
  { Request.sample with
    links := ⟨[
      (1, ⟨.left, 0, "id", "user id", [
        .comparison none ⟨1, "status", .equal, .literal (.text "it's ((")⟩]⟩),
      (2, ⟨.inner, 1, "id", "order_id", []⟩)], by decide⟩
    conditions := [
      .group none [
        .comparison none ⟨0, "id", .isIn, .list [.text ")\"", .text "\\"]⟩,
        .comparison (some .or) ⟨0, "name", .likeAnyCase, .literal (.text "\\') OR ((")⟩]] }

/-- The brackets in these values are more often opening than closing, but they do not count. -/
theorem brackets_balance_unpaired :
    ∃ q : Sql, shop.select unpaired = .ok q ∧
      (Mode.outside.visible q.toText.toList).count '('
        = (Mode.outside.visible q.toText.toList).count ')' ∧
      (∀ before, before <+: q.toText.toList →
        (Mode.outside.visible before).count ')' ≤ (Mode.outside.visible before).count '(') ∧
      (Mode.outside.scan q.toText.toList).inLiteral = false := by
  have hq : shop.select unpaired = .ok _ := rfl
  exact ⟨_, hq, brackets_balance shop unpaired (by decide) (by decide) _ (.inl hq)⟩

end Compiler

end QueryCompiler
