import QueryCompiler.Proofs.Filter
import QueryCompiler.Proofs.Json.Written
import QueryCompiler.Proofs.Sql.Dependence
import QueryCompiler.Proofs.Stored.RoundTrip

/-!
# Requests in texts

The text of a stored request gives the request back as its tree does, if the reader of texts can take
it: numbers of tables are words, floats come back from their texts, and groups do not nest too deep.
`TextStorable` says so.

1. `Predicate.legible_toJson`: each group takes three levels of brackets, and what is in it five.
2. `Predicate.map_reread_listToJson`: no key of a filter is written with an escape.
3. `Request.legible_toJson` and `Request.ofJson?_reread`: so is the whole request, but for aliases,
   whose marks do not count.

Main statements: `Request.readStored_compact` and `Request.readStored_compact_self`.
-/

namespace QueryCompiler

open Json Decimal

/-! ## Scalars and values -/

/-- A float that comes back from its text. -/
def Scalar.IsLegible : Scalar → Prop
  | float x => number? (scientific.text x).toList = some (.float x, [])
  | _ => True

namespace Scalar

theorem isLegible_half : (float 0.5).IsLegible := by
  have htext : (scientific.text 0.5).toList = ['0', '.', '5'] := by decide +kernel
  have hvalue : magnitude? ['0'] ['5'] 0 = some 0.5 := by decide +kernel
  show number? (scientific.text 0.5).toList = _
  rw [htext]
  show some (ofDecimal false ['0'] ['5'] 0, ([] : List Char)) = _
  rw [ofDecimal, hvalue]
  rfl

/-- A float whose text is read as its neighbour: the reader rounds the digits, and then their product
with a power of ten. -/
def roundedTwice : Float := 12.345678951779327

theorem not_isLegible_roundedTwice : ¬ (float roundedTwice).IsLegible := by
  have htext : (scientific.text roundedTwice).toList = "12.345678951779327".toList := by
    decide +kernel
  have hvalue : magnitude? ['1', '2'] "345678951779327".toList 0 ≠ some roundedTwice := by
    decide +kernel
  intro h
  have hread : number? (scientific.text roundedTwice).toList
      = some (ofDecimal false ['1', '2'] "345678951779327".toList 0, []) := by
    rw [htext]
    rfl
  have hsame := (Prod.mk.inj (Option.some.inj (hread.symm.trans h))).1
  unfold ofDecimal at hsame
  split at hsame
  · rename_i x hx
    rw [hx] at hvalue
    cases hsame
    exact hvalue rfl
  · cases hsame

end Scalar

theorem Scalar.legible_toJson {s : Scalar} (h : s.IsLegible) (levels : Nat) :
    Legible levels s.toJson := by
  cases s with
  | bool b => exact .bool b
  | int n =>
    refine .int ⟨?_, ?_⟩
    · exact n.le_toInt
    · exact Int.lt_trans n.toInt_lt (by decide)
  | float x =>
    rw [toJson]
    split
    · exact .float h
    · exact .null
  | text s => exact .text s
  | dateTime t => exact .text t.storedText

theorem Scalar.reread_toJson (s : Scalar) : s.toJson.reread = s.toJson := by
  cases s with
  | float x =>
    rw [toJson]
    split <;> rfl
  | _ => rfl

theorem Value.legible_toJson {v : Value} (h : ∀ s ∈ v.scalars, s.IsLegible) (levels : Nat) :
    Legible (levels + 2) v.toJson := by
  cases v with
  | none => exact .text _
  | literal s =>
    refine .object ?_
    rw [List.forall_mem_singleton]
    exact Scalar.legible_toJson (h s List.mem_cons_self) _
  | column aliasName field =>
    refine .object ?_
    rw [List.forall_mem_singleton]
    refine .object ?_
    rw [List.forall_mem_cons, List.forall_mem_singleton]
    exact ⟨.text _, .text _⟩
  | list items =>
    refine .object ?_
    rw [List.forall_mem_singleton]
    refine .array ?_
    rw [List.forall_mem_map]
    exact fun s hs => Scalar.legible_toJson (h s hs) _

theorem isEscaped_names : ∀ name ∈ ["Literal", "Column", "alias", "field", "List", "table", "op",
    "value", "logic", "comparison", "children", "Comparison", "Group", "join_type",
    "left_table_index", "left_table_field", "right_table_field", "conditions", "option",
    "direction", "classes", "fields", "links", "order_by", "lines", "offset", "distinct_lines",
    "index"], isEscaped name = false := by
  decide

theorem Value.reread_toJson (v : Value) : v.toJson.reread = v.toJson := by
  cases v with
  | none => rfl
  | literal s => simp [toJson, reread, rereadMembers, s.reread_toJson, isEscaped_names]
  | column aliasName field => simp [toJson, reread, rereadMembers, isEscaped_names]
  | list items =>
    simp [toJson, reread, rereadMembers, rereadItems_eq_map, Scalar.reread_toJson, isEscaped_names]

/-! ## Filters -/

variable {levels : Nat}

theorem legible_natural {n : Nat} (h : n < UInt64.size) : Legible levels (.int n) :=
  .int ⟨by omega, Int.ofNat_lt.2 h⟩

theorem Connector.legible_optionToJson (c : Option Connector) : Legible levels (optionToJson c) := by
  rcases c with _ | _ | _
  · exact .null
  · exact .text _
  · exact .text _

theorem Connector.reread_optionToJson (c : Option Connector) :
    (optionToJson c).reread = optionToJson c := by
  rcases c with _ | _ | _ <;> rfl

namespace Comparison

/-- A comparison that its text keeps. -/
structure IsLegible (c : Comparison) : Prop where
  table : c.table < UInt64.size
  scalars : ∀ s ∈ c.value.scalars, s.IsLegible

theorem legible_toJson {c : Comparison} (h : c.IsLegible) (levels : Nat) :
    Legible (levels + 3) c.toJson := by
  refine .object ?_
  simp only [List.forall_mem_cons]
  exact ⟨legible_natural h.table, .text _, .text _, Value.legible_toJson h.scalars levels, nofun⟩

theorem reread_toJson (c : Comparison) : c.toJson.reread = c.toJson := by
  have hoperator : c.operator.toJson.reread = c.operator.toJson := rfl
  simp [toJson, reread, rereadMembers, isEscaped_names, hoperator, c.value.reread_toJson]

end Comparison

namespace Predicate

mutual

/-- How many groups are nested in a predicate. -/
def nestingOf : Predicate → Nat
  | comparison _ _ => 0
  | group _ children => nesting children + 1

/-- How many groups are nested in a sequence. -/
def nesting : List Predicate → Nat
  | [] => 0
  | p :: ps => max (nestingOf p) (nesting ps)

end

/-- A comparison takes five levels of brackets and each group around it three. -/
theorem legible_toJson {ps : List Predicate} (h : ∀ c ∈ comparisons ps, c.IsLegible)
    (hlevels : 3 * nesting ps + 5 ≤ levels) : ∀ j ∈ listToJson ps, Legible levels j := by
  induction ps using sequenceInduction generalizing levels with
  | nil => exact nofun
  | comparison connector c ps ih =>
    rw [comparisons_comparison_cons, List.forall_mem_cons] at h
    rw [nesting, nestingOf] at hlevels
    rw [listToJson, List.forall_mem_cons]
    refine ⟨?_, ih h.2 (by omega)⟩
    obtain ⟨levels, rfl⟩ : ∃ n, levels = n + 5 := ⟨levels - 5, by omega⟩
    refine .object ?_
    rw [List.forall_mem_singleton]
    refine .object ?_
    rw [List.forall_mem_cons, List.forall_mem_singleton]
    exact ⟨Connector.legible_optionToJson connector, c.legible_toJson h.1 levels⟩
  | group connector children ps ihc ih =>
    rw [comparisons_group_cons, List.forall_mem_append] at h
    rw [nesting, nestingOf] at hlevels
    rw [listToJson, List.forall_mem_cons]
    refine ⟨?_, ih h.2 (by omega)⟩
    obtain ⟨levels, rfl⟩ : ∃ n, levels = n + 3 := ⟨levels - 3, by omega⟩
    refine .object ?_
    rw [List.forall_mem_singleton]
    refine .object ?_
    rw [List.forall_mem_cons, List.forall_mem_singleton]
    exact ⟨Connector.legible_optionToJson connector, .array (ihc h.1 (by omega))⟩

theorem map_reread_listToJson (ps : List Predicate) :
    (listToJson ps).map reread = listToJson ps := by
  induction ps using sequenceInduction with
  | nil => rfl
  | comparison connector c ps ih =>
    rw [listToJson, List.map_cons, ih]
    simp [toJson, reread, rereadMembers, isEscaped_names, Connector.reread_optionToJson,
      c.reread_toJson]
  | group connector children ps ihc ih =>
    rw [listToJson, List.map_cons, ih]
    simp [toJson, reread, rereadMembers, rereadItems_eq_map, isEscaped_names,
      Connector.reread_optionToJson, ihc]

end Predicate

/-! ## Links and sort keys -/

namespace Link

theorem legible_toJson {l : Link} (hleft : l.leftTable < UInt64.size)
    (h : ∀ c ∈ Predicate.comparisons l.conditions, c.IsLegible)
    (hlevels : 3 * Predicate.nesting l.conditions + 5 ≤ levels) :
    Legible (levels + 2) l.toJson := by
  refine .object ?_
  simp only [List.forall_mem_cons]
  refine ⟨?_, legible_natural hleft, .text _, .text _, .array (Predicate.legible_toJson h hlevels),
    nofun⟩
  cases l.kind <;> exact .text _

theorem reread_toJson (l : Link) : l.toJson.reread = l.toJson := by
  have hkind : l.kind.toJson.reread = l.kind.toJson := by cases l.kind <;> rfl
  simp [toJson, reread, rereadMembers, rereadItems_eq_map, isEscaped_names, hkind,
    Predicate.map_reread_listToJson]

end Link

namespace OrderTerm

theorem legible_toJson {o : OrderTerm} (h : o.table < UInt64.size) (levels : Nat) :
    Legible (levels + 1) o.toJson := by
  refine .object ?_
  simp only [List.forall_mem_cons]
  refine ⟨legible_natural h, .text _, ?_, ?_, nofun⟩
  · rcases o.part with _ | _ | _ | _ <;> exact .text _
  · cases o.direction <;> exact .text _

theorem reread_toJson (o : OrderTerm) : o.toJson.reread = o.toJson := by
  have hpart : (DatePart.optionToJson o.part).reread = DatePart.optionToJson o.part := by
    rcases o.part with _ | _ | _ | _ <;> rfl
  have hdirection : o.direction.toJson.reread = o.direction.toJson := by
    cases o.direction <;> rfl
  simp [toJson, reread, rereadMembers, isEscaped_names, hpart, hdirection]

end OrderTerm

/-! ## Requests -/

theorem isEscaped_toString (n : Nat) : isEscaped (toString n) = false := by
  have hplain : ∀ c : Char, c.isDigit = true → (elementOf c).isPlain = true := by
    intro c hc
    have hrange : 48 ≤ c.toNat ∧ c.toNat ≤ 57 := Char.isDigit_iff_toNat.1 hc
    have hspecial : c ∉ ['"', '\\', '\x08', '\x0c', '\n', '\r', '\t'] := by
      intro hmem
      simp only [List.mem_cons, List.not_mem_nil, or_false] at hmem
      rcases hmem with rfl | rfl | rfl | rfl | rfl | rfl | rfl <;> cases hc
    rw [elementOf, if_neg hspecial, if_neg (by omega)]
    rfl
  have hdigits : ∀ c ∈ (toString n).toList, c.isDigit = true := by
    have hlist : (toString n).toList = Nat.toDigits 10 n := Nat.toList_repr
    rw [hlist]
    exact (Text.isDigits_toDigits n).2
  rw [isEscaped, List.any_map, List.any_eq_false]
  intro c hc
  simp [hplain c (hdigits c hc)]

namespace Request

/-- A request that its text keeps: the numbers of its tables are words, its floats come back from
their texts, and the brackets of its groups stay within the limit of the reader. -/
structure TextStorable (r : Request) : Prop extends Storable r where
  comparison : ∀ c ∈ r.allComparisons, c.IsLegible
  leftTable : ∀ e ∈ r.links.entries, e.2.leftTable < UInt64.size
  orderTable : ∀ term ∈ r.order, term.table < UInt64.size
  aliasTable : ∀ e ∈ r.aliases.entries, e.2 < UInt64.size
  filterNesting : Predicate.nesting r.conditions ≤ 40
  linkNesting : ∀ e ∈ r.links.entries, Predicate.nesting e.2.conditions ≤ 39

variable {r : Request}

theorem legible_toJson (h : r.TextStorable) : Legible maxDepth r.toJson := by
  have hcomparison := h.comparison
  rw [allComparisons, List.forall_mem_append, List.forall_mem_flatMap] at hcomparison
  have hwords : Legible 126 (.int r.lines.toNat) ∧ Legible 126 (.int r.offset.toNat) :=
    ⟨legible_natural r.lines.toNat_lt_size, legible_natural r.offset.toNat_lt_size⟩
  have hfilter : ∀ j ∈ Predicate.listToJson r.conditions, Legible 125 j :=
    Predicate.legible_toJson hcomparison.2 (by have := h.filterNesting; omega)
  have hlink : ∀ e ∈ r.links.entries, Legible 125 e.2.toJson := fun e he =>
    Link.legible_toJson (h.leftTable e he) (hcomparison.1 e he)
      (by have := h.linkNesting e he; omega)
  refine .object ?_
  simp only [List.forall_mem_cons]
  refine ⟨.array ?_, .object ?_, .object ?_, .array hfilter, .array ?_, hwords.1, hwords.2,
    .bool _, .object ?_, nofun⟩
  · rw [List.forall_mem_map]
    exact fun name _ => .text name
  · rw [List.forall_mem_map]
    refine fun e _ => .array ?_
    rw [List.forall_mem_map]
    exact fun name _ => .text name
  · rw [List.forall_mem_map]
    exact hlink
  · rw [List.forall_mem_map]
    exact fun term ht => OrderTerm.legible_toJson (h.orderTable term ht) 124
  · rw [List.forall_mem_map]
    exact fun e he => legible_natural (h.aliasTable e he)

theorem reread_array {α : Type} {g : α → Json} (hg : ∀ x, (g x).reread = g x) (xs : List α) :
    (array (xs.map g)).reread = array (xs.map g) := by
  rw [reread, rereadItems_eq_map, List.map_map]
  exact congrArg array (List.map_congr_left fun x _ => hg x)

/-- No key of a map over tables is written with an escape. -/
theorem reread_tables {α : Type} {g : α → Json} (hg : ∀ x, (g x).reread = g x)
    (es : List (Nat × α)) : (object false (es.map fun e => (toString e.1, g e.2))).reread
      = object false (es.map fun e => (toString e.1, g e.2)) := by
  have hkeys : (es.map fun e => (toString e.1, g e.2)).any (fun m => isEscaped m.1) = false := by
    rw [List.any_map, List.any_eq_false]
    exact fun e _ => Bool.eq_false_iff.1 (isEscaped_toString e.1)
  have hvalues : (es.map fun e => (toString e.1, g e.2)).map (fun m => (m.1, m.2.reread))
      = es.map fun e => (toString e.1, g e.2) := by
    rw [List.map_map]
    exact List.map_congr_left fun e _ => Prod.ext rfl (hg e.2)
  rw [reread, rereadMembers_eq_map, hkeys, hvalues]

/-- The marks of the aliases do not count, and nothing else is marked. -/
theorem ofJson?_reread (r : Request) : ofJson? r.toJson.reread = ofJson? r.toJson := by
  have hnames (names : List String) : (array (names.map Json.text)).reread
      = array (names.map Json.text) := reread_array (fun _ => rfl) names
  have hfields := reread_tables hnames r.fields.entries
  have hlinks := reread_tables Link.reread_toJson r.links.entries
  have hfilter : (array (Predicate.listToJson r.conditions)).reread
      = array (Predicate.listToJson r.conditions) := by
    rw [reread, rereadItems_eq_map, Predicate.map_reread_listToJson]
  have horder := reread_array OrderTerm.reread_toJson r.order
  have haliases : (object false (r.aliases.entries.map fun e => (e.1, int e.2))).reread
      = object (r.aliases.entries.any fun e => isEscaped e.1)
          (r.aliases.entries.map fun e => (e.1, int e.2)) := by
    rw [reread, rereadMembers_eq_map, List.any_map, List.map_map]
    rfl
  have hnumber (n : Int) : (int n).reread = int n := rfl
  have hflag (b : Bool) : (bool b).reread = bool b := rfl
  rw [toJson, reread]
  simp only [rereadMembers, hnames, hfields, hlinks, hfilter, horder, haliases, hnumber, hflag]
  simp [-Nat.toString_eq_repr, ofJson?, record?, member?, required?, asMembers?]

/-- The text of a stored request gives back what its tree does. -/
theorem readStored_compact (h : r.TextStorable) : readStored r.toJson.compact = .ok r.stored := by
  rw [readStored, read?_compact_of_legible (legible_toJson h), Option.bind_some, ofJson?_reread,
    ofJson?_toJson h.toStorable]

/-- Without date-times it gives back the request. -/
theorem readStored_compact_self (h : r.TextStorable)
    (ht : ∀ s ∈ r.heldScalars, ∀ t, s ≠ .dateTime t) : readStored r.toJson.compact = .ok r := by
  rw [readStored_compact h, stored_eq_self ht]

end Request

end QueryCompiler
