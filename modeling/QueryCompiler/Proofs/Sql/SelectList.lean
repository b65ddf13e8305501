import Mathlib.Data.List.DropRight
import Mathlib.Data.List.Nodup
import QueryCompiler.Proofs.Sql.Nesting
import QueryCompiler.Proofs.Sql.StatementText

/-!
# The select list read back

The first line of a statement that gives rows lists the selected fields, each as a column with an
output name. If the fields are identifiers, the commas of the line are those between the items, and
an output name tells its table and its field: the digits of the table end where the low line stands.

1. `isUnbroken_itemText`: an item has neither a comma nor the end of a line in it.
2. `splitOn_columnsText`: so the list splits into its items, none lost and none cut.
3. `labelText_eq_iff` and `outputName_itemText`: the output name that an item ends with is that of
   no other column.
4. `nodup_selected_iff`: a column is listed twice only if its table asks for it twice.

Main statement: `select_list_readable`.
-/

namespace QueryCompiler

open Text

/-! ## Texts without commas -/

namespace Text

/-- Neither a comma nor the end of a line is among the characters. -/
def IsUnbroken (cs : List Char) : Prop := ∀ c ∈ cs, c ∉ [',', '\n']

variable {cs cs' : List Char}

theorem isUnbroken_append : IsUnbroken (cs ++ cs') ↔ IsUnbroken cs ∧ IsUnbroken cs' :=
  List.forall_mem_append

theorem isUnbroken_cons {c : Char} :
    IsUnbroken (c :: cs) ↔ c ∉ [',', '\n'] ∧ IsUnbroken cs :=
  List.forall_mem_cons

theorem not_mem_intercalate {c sep : Char} {parts : List (List Char)} (hc : c ≠ sep)
    (h : ∀ part ∈ parts, c ∉ part) : c ∉ [sep].intercalate parts := by
  induction parts with
  | nil => exact List.not_mem_nil
  | cons part parts ih =>
    obtain ⟨hpart, hparts⟩ := List.forall_mem_cons.1 h
    cases parts with
    | nil =>
      rw [List.intercalate_singleton]
      exact hpart
    | cons part' parts =>
      rw [List.intercalate_cons_cons, List.mem_append, List.mem_append, List.mem_singleton]
      rintro ((hmem | hmem) | hmem)
      · exact hpart hmem
      · exact hc hmem
      · exact ih hparts hmem

theorem isUnbroken_toDigits (n : Nat) : IsUnbroken (Nat.toDigits 10 n) := by
  intro c hc hmem
  have hdigit := (isDigits_toDigits n).2 c hc
  simp only [List.mem_cons, List.not_mem_nil, or_false] at hmem
  rcases hmem with rfl | rfl <;> cases hdigit

end Text

theorem isUnbroken_of_isIdentifier {name : String} (h : isIdentifier name = true) :
    IsUnbroken name.toList := by
  intro c hc hmem
  have hchar := forall_mem_of_isIdentifier h c hc
  simp only [List.mem_cons, List.not_mem_nil, or_false] at hmem
  rcases hmem with rfl | rfl <;> cases hchar

/-! ## Output names -/

variable {table table' : Nat} {field field' : String}

theorem toList_labelText (table : Nat) (field : String) :
    (labelText table field).toList = 'T' :: (Nat.toDigits 10 table ++ '_' :: field.toList) := by
  simp only [labelText, Nat.toString_eq_repr, String.toList_append, Nat.toList_repr]
  simp only [List.append_assoc]
  rfl

/-- The low line after the number of the table is the first one, whatever the field. -/
theorem labelText_eq_iff :
    labelText table field = labelText table' field' ↔ table = table' ∧ field = field' := by
  constructor
  · intro h
    have hlist := congrArg String.toList h
    rw [toList_labelText, toList_labelText, List.cons_inj_right] at hlist
    have htake (n : Nat) (cs : List Char) :
        (Nat.toDigits 10 n ++ '_' :: cs).takeWhile Char.isDigit = Nat.toDigits 10 n := by
      rw [List.takeWhile_append_of_pos (isDigits_toDigits n).2,
        List.takeWhile_cons_of_neg (by decide), List.append_nil]
    have hdigits : Nat.toDigits 10 table = Nat.toDigits 10 table' := by
      rw [← htake table field.toList, hlist, htake]
    have htable : table = table' := by
      rw [← Nat.ofDigitChars_ten_toDigits (n := table), hdigits, Nat.ofDigitChars_ten_toDigits]
    rw [hdigits] at hlist
    have hfield := List.append_cancel_left hlist
    exact ⟨htable, String.toList_injective (List.cons.inj hfield).2⟩
  · rintro ⟨rfl, rfl⟩
    rfl

/-! ## Items -/

/-- A selected field as it is listed. -/
def itemText (table : Nat) (field : String) : String := s!"T{table}.{field} AS T{table}_{field}"

/-- The output name of an item: what follows its last blank. -/
def outputName (item : List Char) : List Char := item.rtakeWhile (· ≠ ' ')

theorem itemText_eq (table : Nat) (field : String) :
    itemText table field = columnText table field ++ " AS " ++ labelText table field := by
  have hwords : " AS T" = " AS " ++ "T" := rfl
  simp only [itemText, columnText, labelText, hwords, String.append_assoc]
  rfl

theorem toList_itemText (table : Nat) (field : String) :
    (itemText table field).toList =
      'T' :: (Nat.toDigits 10 table ++ '.' :: (field.toList ++ [' ', 'A', 'S']))
        ++ ' ' :: (labelText table field).toList := by
  have hwords : " AS ".toList = [' ', 'A', 'S'] ++ [' '] := rfl
  simp only [itemText_eq, columnText, Nat.toString_eq_repr, String.toList_append, Nat.toList_repr,
    hwords, List.append_assoc, List.cons_append]
  rfl

theorem isUnbroken_labelText (h : isIdentifier field = true) :
    IsUnbroken (labelText table field).toList := by
  rw [toList_labelText, isUnbroken_cons, isUnbroken_append, isUnbroken_cons]
  exact ⟨by decide, isUnbroken_toDigits table, by decide, isUnbroken_of_isIdentifier h⟩

theorem isUnbroken_itemText (h : isIdentifier field = true) :
    IsUnbroken (itemText table field).toList := by
  have hwords : IsUnbroken [' ', 'A', 'S'] := by simp [IsUnbroken]
  have hfield : IsUnbroken ('.' :: (field.toList ++ [' ', 'A', 'S'])) :=
    isUnbroken_cons.2 ⟨by decide, isUnbroken_append.2 ⟨isUnbroken_of_isIdentifier h, hwords⟩⟩
  have hcolumn : IsUnbroken
      ('T' :: (Nat.toDigits 10 table ++ '.' :: (field.toList ++ [' ', 'A', 'S']))) :=
    isUnbroken_cons.2 ⟨by decide, isUnbroken_append.2 ⟨isUnbroken_toDigits table, hfield⟩⟩
  rw [toList_itemText]
  exact isUnbroken_append.2 ⟨hcolumn, isUnbroken_cons.2 ⟨by decide, isUnbroken_labelText h⟩⟩

theorem outputName_itemText (h : isIdentifier field = true) :
    outputName (itemText table field).toList = (labelText table field).toList := by
  have hlabel : ∀ c ∈ (labelText table field).toList.reverse, decide (c ≠ ' ') = true := by
    intro c hc
    rw [List.mem_reverse, toList_labelText, List.mem_cons, List.mem_append, List.mem_cons] at hc
    refine decide_eq_true ?_
    rintro rfl
    rcases hc with hc | hc | hc | hc
    · cases hc
    · cases (isDigits_toDigits table).2 _ hc
    · cases hc
    · cases forall_mem_of_isIdentifier h _ hc
  unfold outputName List.rtakeWhile
  rw [toList_itemText, List.reverse_append, List.reverse_cons, List.append_assoc,
    List.takeWhile_append_of_pos hlabel, List.singleton_append,
    List.takeWhile_cons_of_neg (by decide), List.append_nil, List.reverse_reverse]

/-! ## The list -/

namespace Compiler

variable {k : Compiler} {r : Request}

/-- The items of the select list, table by table. -/
def listedItems (r : Request) : List (List Char) :=
  r.fields.entries.flatMap fun e => e.2.map fun field => (itemText e.1 field).toList

theorem listedItems_eq_map (r : Request) :
    listedItems r = (selected r).map fun s => (itemText s.1 s.2).toList := by
  simp only [listedItems, selected, List.map_flatMap, List.map_map]
  rfl

theorem toList_columnsText (r : Request) :
    r.columnsText.toList = [','].intercalate (listedItems r) := by
  have hsep : ",".toList = [','] := rfl
  unfold Request.columnsText
  rw [String.toList_intercalate, List.map_map, listedItems_eq_map, hsep]
  refine congrArg _ (List.map_congr_left ?_)
  intro s _
  rw [Function.comp_apply, itemText_eq]

/-- The tables of a request differ, so a column comes twice only by its own table. -/
theorem nodup_selected_iff (r : Request) :
    (selected r).Nodup ↔ ∀ e ∈ r.fields.entries, e.2.Nodup := by
  have hkeys : r.fields.entries.Pairwise fun e e' => e.1 ≠ e'.1 :=
    List.pairwise_map.1 r.fields.nodup
  have hinj (table : Nat) : Function.Injective fun field : String => (table, field) := by
    intro field field' h
    exact (Prod.mk.inj h).2
  unfold selected
  rw [List.nodup_flatMap]
  constructor
  · rintro ⟨h, -⟩ e he
    exact (List.nodup_map_iff (hinj e.1)).1 (h e he)
  · intro h
    refine ⟨fun e he => (List.nodup_map_iff (hinj e.1)).2 (h e he), hkeys.imp ?_⟩
    intro e e' hne s hs hs'
    obtain ⟨field, -, rfl⟩ := List.mem_map.1 hs
    obtain ⟨field', -, heq⟩ := List.mem_map.1 hs'
    exact hne (congrArg Prod.fst heq).symm

section

variable (hfields : ∀ e ∈ r.fields.entries, ∀ field ∈ e.2, isIdentifier field = true)

include hfields

theorem isUnbroken_of_mem_listedItems {item : List Char} (h : item ∈ listedItems r) :
    IsUnbroken item := by
  obtain ⟨e, he, hitem⟩ := List.mem_flatMap.1 h
  obtain ⟨field, hfield, rfl⟩ := List.mem_map.1 hitem
  exact isUnbroken_itemText (hfields e he field hfield)

theorem splitOn_columnsText (hne : (selected r).isEmpty = false) :
    r.columnsText.toList.splitOn ',' = listedItems r := by
  rw [toList_columnsText]
  apply List.splitOn_intercalate
  · intro item hitem hmem
    exact isUnbroken_of_mem_listedItems hfields hitem _ hmem (by decide)
  · rw [listedItems_eq_map, ne_eq, List.map_eq_nil_iff]
    exact List.isEmpty_eq_false_iff.1 hne

theorem not_mem_columnsText : '\n' ∉ r.columnsText.toList := by
  rw [toList_columnsText]
  apply not_mem_intercalate (by decide)
  intro item hitem hmem
  exact isUnbroken_of_mem_listedItems hfields hitem _ hmem (by decide)

/-- Output names are as different as the columns they stand for. -/
theorem nodup_outputNames_iff :
    ((listedItems r).map outputName).Nodup ↔ ∀ e ∈ r.fields.entries, e.2.Nodup := by
  have hnames : (listedItems r).map outputName
      = (selected r).map fun s => (labelText s.1 s.2).toList := by
    rw [listedItems_eq_map, List.map_map]
    refine List.map_congr_left ?_
    intro s hs
    obtain ⟨e, he, hmem⟩ := List.mem_flatMap.1 hs
    obtain ⟨field, hfield, rfl⟩ := List.mem_map.1 hmem
    rw [Function.comp_apply, outputName_itemText (hfields e he field hfield)]
  have hinj : Function.Injective fun s : Nat × String => (labelText s.1 s.2).toList := by
    intro s s' h
    obtain ⟨htable, hfield⟩ := labelText_eq_iff.1 (String.toList_injective h)
    exact Prod.ext htable hfield
  rw [hnames, List.nodup_map_iff hinj, nodup_selected_iff]

end

theorem exists_toText_select {q : Sql} (h : k.select r = .ok q) :
    ∃ rest, q.toText = "SELECT " ++ r.distinctText ++ r.columnsText ++ "\n" ++ rest := by
  obtain ⟨-, -, b, -, rfl⟩ := select_eq_ok_iff.1 h
  refine ⟨b.toText ++ (orderLine r).toText ++ (limitLine r).toText, ?_⟩
  simp only [Sql.toText_append, Sql.toText_cons, Sql.toText_nil, Piece.text, String.append_empty,
    toText_distinctWords, toText_selectList, String.append_assoc]

/-- If the selected fields are identifiers, what stands between the opening words and the end of the
first line splits at its commas into one item for each selected field, table by table as they were
first selected. An item names its column, and no other one, behind its last blank. -/
theorem select_list_readable {q : Sql} (h : k.select r = .ok q)
    (hfields : ∀ e ∈ r.fields.entries, ∀ field ∈ e.2, isIdentifier field = true) :
    (∃ list rest,
      q.toText.toList = "SELECT ".toList ++ r.distinctText.toList ++ list ++ '\n' :: rest ∧
        '\n' ∉ "SELECT ".toList ++ r.distinctText.toList ++ list ∧
        list.splitOn ',' = listedItems r) ∧
      (∀ e ∈ r.fields.entries, ∀ field ∈ e.2, ∀ e' ∈ r.fields.entries, ∀ field' ∈ e'.2,
        outputName (itemText e.1 field).toList = s!"T{e.1}_{field}".toList ∧
        (outputName (itemText e.1 field).toList = outputName (itemText e'.1 field').toList ↔
          e.1 = e'.1 ∧ field = field')) ∧
      (((listedItems r).map outputName).Nodup ↔ ∀ e ∈ r.fields.entries, e.2.Nodup) := by
  obtain ⟨-, hsome, -⟩ := select_eq_ok_iff.1 h
  obtain ⟨rest, htext⟩ := exists_toText_select h
  refine ⟨⟨r.columnsText.toList, rest.toList, ?_, ?_, splitOn_columnsText hfields hsome⟩, ?_,
    nodup_outputNames_iff hfields⟩
  · have hend : "\n".toList = ['\n'] := rfl
    rw [htext, String.toList_append, String.toList_append, String.toList_append,
      String.toList_append, hend, List.append_assoc, List.singleton_append]
  · have hopening : '\n' ∉ "SELECT ".toList ++ r.distinctText.toList := by
      unfold Request.distinctText
      cases r.distinct <;> decide
    exact List.not_mem_append hopening (not_mem_columnsText hfields)
  · intro e he field hfield e' he' field' hfield'
    rw [outputName_itemText (hfields e he field hfield),
      outputName_itemText (hfields e' he' field' hfield')]
    refine ⟨rfl, ?_⟩
    rw [String.toList_inj, labelText_eq_iff]

/-- The sample selects three fields, each once. -/
theorem select_list_readable_sample :
    (∃ q list rest, shop.select .sample = .ok q ∧
      q.toText.toList
        = "SELECT ".toList ++ Request.sample.distinctText.toList ++ list ++ '\n' :: rest ∧
      list.splitOn ',' = ["T2.sku AS T2_sku", "T0.id AS T0_id", "T0.name AS T0_name"].map
        String.toList) ∧
    ((listedItems .sample).map outputName).Nodup := by
  obtain ⟨q, hq⟩ : ∃ q, shop.select .sample = .ok q := ⟨_, rfl⟩
  obtain ⟨⟨list, rest, htext, -, hsplit⟩, -, hnodup⟩ := select_list_readable hq (by decide)
  exact ⟨⟨q, list, rest, hq, htext, hsplit⟩, hnodup.2 (by decide)⟩

end Compiler

end QueryCompiler
