import QueryCompiler.Proofs.Sql.Parts
import QueryCompiler.Proofs.ValidRequest

/-!
# Which comparisons can be written

`Renderable` says by operator, value and declared type which comparisons become conditions. It
speaks of the catalog as a look-up and does without the functions that write.

1. `isIdentifier_iff`, `isFinite_ofFloat_iff`: plain names and finite floats, said without the
   tests for them.
2. `exists_coerce_iff`, `exists_element_iff`: which scalars become literals.
3. `exists_fragment_iff`: which operand an operator goes with.
4. `exists_operand_single_iff`, `exists_operand_list_iff`: which values become such operands.

Main statement: `exists_comparison_iff`.
-/

namespace QueryCompiler

open Outcome Predicate

/-! ## Names and floats -/

/-- A letter of ASCII or the low line. -/
def IsWordStart (c : Char) : Prop := ('A' ≤ c ∧ c ≤ 'Z') ∨ ('a' ≤ c ∧ c ≤ 'z') ∨ c = '_'

/-- A word of letters, digits and low lines with no digit in front: `[A-Za-z_][A-Za-z0-9_]*`. -/
def IsWord (s : String) : Prop :=
  ∃ c cs, s.toList = c :: cs ∧ IsWordStart c ∧ ∀ d ∈ cs, IsWordStart d ∨ ('0' ≤ d ∧ d ≤ '9')

theorem decide_range_iff {lo hi c : Char} :
    (decide (lo ≤ c) && decide (c ≤ hi)) = true ↔ lo ≤ c ∧ c ≤ hi := by
  rw [Bool.and_eq_true, decide_eq_true_eq, decide_eq_true_eq]

theorem isIdentifierStart_iff {c : Char} : isIdentifierStart c = true ↔ IsWordStart c := by
  have halpha : c.isAlpha = true ↔ c.isUpper = true ∨ c.isLower = true := Bool.or_eq_true_iff
  have hupper : c.isUpper = true ↔ 'A' ≤ c ∧ c ≤ 'Z' := decide_eq_true_iff
  have hlower : c.isLower = true ↔ 'a' ≤ c ∧ c ≤ 'z' := decide_range_iff
  rw [isIdentifierStart, Bool.or_eq_true, halpha, hupper, hlower, decide_eq_true_eq, or_assoc]
  rfl

theorem isIdentifier_iff {s : String} : isIdentifier s = true ↔ IsWord s := by
  have hdigit {d : Char} : d.isDigit = true ↔ '0' ≤ d ∧ d ≤ '9' := decide_range_iff
  unfold isIdentifier IsWord
  cases s.toList with
  | nil => simp
  | cons c cs =>
    simp only [Bool.and_eq_true, isIdentifierStart_iff, List.all_eq_true, Bool.or_eq_true, hdigit]
    constructor
    · rintro ⟨hc, hcs⟩
      exact ⟨c, cs, rfl, hc, hcs⟩
    · rintro ⟨c', cs', h, hc, hcs⟩
      cases h
      exact ⟨hc, hcs⟩

/-- A float that is a number and not infinite: its exponent is not all ones. -/
def IsFinite (x : Float) : Prop := (x.toBits >>> 52) &&& 0x7FF ≠ 0x7FF

theorem isFinite_ofFloat_iff {x : Float} :
    (Decimal.Binary.ofFloat x).isFinite = true ↔ IsFinite x := by
  have hfield : ((x.toBits >>> 52) &&& 0x7FF).toNat = 0x7FF ↔
      (x.toBits >>> 52) &&& 0x7FF = 0x7FF := UInt64.toNat_inj (b := 0x7FF)
  unfold Decimal.Binary.ofFloat Decimal.Binary.ofBits IsFinite
  simp only [hfield]
  by_cases h : (x.toBits >>> 52) &&& 0x7FF = 0x7FF
  · rw [if_pos h]
    refine iff_of_false ?_ (not_not.2 h)
    split <;> exact Bool.false_ne_true
  · rw [if_neg h]
    refine iff_of_true ?_ h
    split <;> rfl

/-- A scalar that a float field can be compared with: no date-time, and finite as a float. -/
def Scalar.FitsFloat (s : Scalar) : Prop :=
  (∀ t, s ≠ .dateTime t) ∧ ∃ x, s.toFloat? = some x ∧ IsFinite x

namespace Literal

variable {s : Scalar}

theorem exists_ofFloat_iff {x : Float} : (∃ l, ofFloat x = .ok l) ↔ IsFinite x := by
  rw [← isFinite_ofFloat_iff]
  unfold ofFloat
  split
  · rename_i h
    exact iff_of_true ⟨_, rfl⟩ h
  · rename_i h
    exact iff_of_false nofun h

theorem exists_element_iff : (∃ l, element s = .ok l) ↔ ∀ x, s = .float x → IsFinite x := by
  cases s with
  | float x => simp [element, exists_ofFloat_iff]
  | bool _ | int _ | text _ | dateTime _ => simp [element]

theorem exists_coerce_iff {type : DomainType} :
    (∃ l, coerce type s = .ok l) ↔ (type = .float → s.FitsFloat) := by
  cases type with
  | float =>
    have hfloat {x : Float} : floatOf s = .ok x ↔ s.toFloat? = some x := by
      unfold floatOf
      cases s.toFloat? <;> simp
    have hdate : (∃ x, s.toFloat? = some x) → ∀ t, s ≠ .dateTime t := by
      rintro ⟨x, hx⟩ t rfl
      cases hx
    simp only [coerce, bind_eq_ok_iff, hfloat, forall_const, Scalar.FitsFloat]
    constructor
    · rintro ⟨l, x, hx, hl⟩
      exact ⟨hdate ⟨x, hx⟩, x, hx, exists_ofFloat_iff.1 ⟨l, hl⟩⟩
    · rintro ⟨-, x, hx, hfin⟩
      obtain ⟨l, hl⟩ := exists_ofFloat_iff.2 hfin
      exact ⟨l, x, hx, hl⟩
  | string | json | integer | timestamp | dateTime | other => simp [coerce]

end Literal

/-! ## Comparisons -/

/-- The operators that compare with one value. -/
def Operator.binary : List Operator :=
  [.greater, .less, .greaterEqual, .lessEqual, .equal, .notEqual, .like, .likeAnyCase]

namespace Compiler

/-- The catalog has the class of a table. -/
def Knows (k : Compiler) (r : Request) (table : Nat) : Prop :=
  ∃ name entity, r.classes[table]? = some name ∧ k.catalog.entities.get? name = some entity

/-- The field of a comparison is declared a float. -/
def IsFloatField (k : Compiler) (r : Request) (c : Comparison) : Prop :=
  ∃ name entity, r.classes[c.table]? = some name ∧ k.catalog.entities.get? name = some entity ∧
    entity.fields.get? c.field = some .float

/-- A comparison that can be written: a test for null with any value, an operator for one value
with a plain column or with a literal that suits the field, or a test of membership in a list
whose floats are finite. -/
inductive Renderable (k : Compiler) (r : Request) (c : Comparison) : Prop
  | nullTest (ho : c.operator = .isNull ∨ c.operator = .isNotNull)
  | column {aliasName field : String} (ho : c.operator ∈ Operator.binary)
      (hv : c.value = .column aliasName field) (hf : IsWord field)
  | literal {s : Scalar} (ho : c.operator ∈ Operator.binary) (hv : c.value = .literal s)
      (hf : k.IsFloatField r c → s.FitsFloat)
  | list {items : List Scalar} (ho : c.operator = .isIn ∨ c.operator = .isNotIn)
      (hv : c.value = .list items) (hf : ∀ x, .float x ∈ items → IsFinite x)

variable {k : Compiler} {r : Request} {c : Comparison}

theorem find_eq_ok_iff {name : String} {entity : Entity} :
    k.catalog.find name = .ok entity ↔ k.catalog.entities.get? name = some entity := by
  unfold Catalog.find
  cases k.catalog.entities.get? name <;> simp

theorem exists_tableName_iff {table : Nat} :
    (∃ name, k.tableName r table = .ok name) ↔ k.Knows r table := by
  simp only [tableName, Catalog.tableName, bind_eq_ok_iff, map_eq_ok_iff,
    Request.classOf_eq_ok_iff, find_eq_ok_iff]
  constructor
  · rintro ⟨-, name, hname, entity, hentity, -⟩
    exact ⟨name, entity, hname, hentity⟩
  · rintro ⟨name, entity, hname, hentity⟩
    exact ⟨entity.table, name, hname, entity, hentity, rfl⟩

/-- A field of a known table has a type, which is float exactly if it is declared so. -/
theorem exists_fieldType (h : k.Knows r c.table) :
    ∃ name type, r.classOf c.table = .ok name ∧ k.catalog.fieldType name c.field = .ok type ∧
      (type = .float ↔ k.IsFloatField r c) := by
  obtain ⟨name, entity, hname, hentity⟩ := h
  refine ⟨name, (entity.fields.get? c.field).getD .other, Request.classOf_eq_ok_iff.2 hname,
    map_eq_ok_iff.2 ⟨entity, find_eq_ok_iff.2 hentity, rfl⟩, ?_⟩
  unfold IsFloatField
  cases hfield : entity.fields.get? c.field <;> simp [hname, hentity, hfield]

/-- The operators go with different operands: any, a single one, a list. -/
theorem exists_fragment_iff {column : Sql} {op : Operator} {o : Operand} :
    (∃ q, k.fragment column op o = .ok q) ↔
      (op = .isNull ∨ op = .isNotNull) ∨ (op ∈ Operator.binary ∧ ∃ q, o = .single q) ∨
        (op = .isIn ∨ op = .isNotIn) ∧ ∃ items, o = .list items := by
  cases op with
  | isNull | isNotNull => simp [fragment]
  | greater | less | greaterEqual | lessEqual | equal | notEqual | like | likeAnyCase =>
    cases o <;> simp [fragment, Operand.single?, Operator.binary]
  | isIn | isNotIn =>
    cases o <;> simp [fragment, Operand.list?, Operator.binary]

theorem exists_operand_single_iff (ht : c.operator.takesValue = true) (hk : k.Knows r c.table)
    (ha : ∀ aliasName field, c.value = .column aliasName field →
      ∃ table, r.tableOf aliasName = .ok table) :
    (∃ q, k.operand r c = .ok (.single q)) ↔
      (∃ aliasName field, c.value = .column aliasName field ∧ IsWord field) ∨
        ∃ s, c.value = .literal s ∧ (k.IsFloatField r c → s.FitsFloat) := by
  unfold operand
  rw [if_pos ht]
  cases hv : c.value with
  | none => simp
  | literal s =>
    obtain ⟨name, type, hname, htype, hfloat⟩ := exists_fieldType hk
    simp only [hname, ok_bind, htype, bind_pure_eq_ok_iff, ← hfloat, ← Literal.exists_coerce_iff]
    simp
  | column aliasName field =>
    obtain ⟨table, htable⟩ := ha aliasName field hv
    simp only [htable, ok_bind, ← isIdentifier_iff]
    by_cases hf : isIdentifier field = true
    · simp [hf]
    · simp [hf]
  | list items => simp [bind_eq_ok_iff]

theorem exists_operand_list_iff (ht : c.operator.takesValue = true) :
    (∃ items, k.operand r c = .ok (.list items)) ↔
      ∃ items, c.value = .list items ∧ ∀ x, .float x ∈ items → IsFinite x := by
  have helements {items : List Scalar} : (∃ ls, items.mapM Literal.element = .ok ls) ↔
      ∀ x, .float x ∈ items → IsFinite x := by
    simp only [exists_mapM_iff, Literal.exists_element_iff]
    constructor
    · intro h x hx
      exact h _ hx x rfl
    · rintro h s hs x rfl
      exact h x hs
  constructor
  · rintro ⟨_, ho⟩
    cases operandCase ho with
    | list _ hv hl => exact ⟨_, hv, helements.1 ⟨_, hl⟩⟩
  · rintro ⟨items, hv, hf⟩
    obtain ⟨ls, hl⟩ := helements.2 hf
    refine ⟨ls.map fun l => [.literal l], ?_⟩
    unfold operand
    rw [if_pos ht, hv]
    simp only [hl]
    rfl

/-- Where its tables are known, a comparison can be written if and only if it is renderable. -/
theorem exists_comparison_iff (hk : k.Knows r c.table)
    (ha : ∀ aliasName field, c.value = .column aliasName field →
      ∃ table, r.tableOf aliasName = .ok table) :
    (∃ q, k.comparison r c = .ok q) ↔ k.Renderable r c := by
  have hsplit : (∃ q, k.comparison r c = .ok q) ↔
      ∃ o, k.operand r c = .ok o ∧
        ∃ q, k.fragment [.column c.table c.field] c.operator o = .ok q := by
    simp only [comparison, bind_eq_ok_iff]
    rw [exists_comm]
    simp only [exists_and_left]
  have hbinary (h : c.operator ∈ Operator.binary) : c.operator.takesValue = true := by
    revert h
    cases c.operator <;> decide
  have hlist (h : c.operator = .isIn ∨ c.operator = .isNotIn) : c.operator.takesValue = true := by
    rcases h with h | h <;> rw [h] <;> rfl
  rw [hsplit]
  simp only [exists_fragment_iff]
  constructor
  · rintro ⟨o, ho, hop | ⟨hop, q, rfl⟩ | ⟨hop, items, rfl⟩⟩
    · exact .nullTest hop
    · rcases (exists_operand_single_iff (hbinary hop) hk ha).1 ⟨q, ho⟩ with
        ⟨aliasName, field, hv, hf⟩ | ⟨s, hv, hf⟩
      · exact .column hop hv hf
      · exact .literal hop hv hf
    · obtain ⟨items, hv, hf⟩ := (exists_operand_list_iff (hlist hop)).1 ⟨items, ho⟩
      exact .list hop hv hf
  · intro h
    cases h with
    | nullTest hop =>
      refine ⟨.none, ?_, .inl hop⟩
      unfold operand
      rcases hop with hop | hop <;> rw [hop] <;> rfl
    | column hop hv hf =>
      obtain ⟨q, hq⟩ := (exists_operand_single_iff (hbinary hop) hk ha).2 (.inl ⟨_, _, hv, hf⟩)
      exact ⟨_, hq, .inr (.inl ⟨hop, q, rfl⟩)⟩
    | literal hop hv hf =>
      obtain ⟨q, hq⟩ := (exists_operand_single_iff (hbinary hop) hk ha).2 (.inr ⟨_, hv, hf⟩)
      exact ⟨_, hq, .inr (.inl ⟨hop, q, rfl⟩)⟩
    | list hop hv hf =>
      obtain ⟨items, hq⟩ := (exists_operand_list_iff (hlist hop)).2 ⟨_, hv, hf⟩
      exact ⟨_, hq, .inr (.inr ⟨hop, items, rfl⟩)⟩

end Compiler

end QueryCompiler
