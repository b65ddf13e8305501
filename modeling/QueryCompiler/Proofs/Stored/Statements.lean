import QueryCompiler.Proofs.Checking
import QueryCompiler.Proofs.Stored.DateTimes
import QueryCompiler.Proofs.Stored.RequestText

/-!
# Statements of stored requests

A request that comes back from its stored form passes the same checks as the one that was stored, and
has the same statements if each of its values means the same. What a value means depends on the type
of its field, so a date-time may or may not do; everything else always does. A text keeps what
`TextStorable` allows: a float whose digits are read as its neighbour changes a statement too
(`exists_statement_rounded`).

1. `Request.stored_eq_mapComparisons`: what is stored differs in values of comparisons alone.
2. `Compiler.comparison_stored`: a comparison is written alike if its value means the same.

Main statement: `Request.statements_stored`.
-/

namespace QueryCompiler

open Literal Outcome

/-! ## What has changed -/

theorem Predicate.storedAll_eq_mapComparisons (ps : List Predicate) :
    storedAll ps = mapComparisons Comparison.stored ps := by
  induction ps using sequenceInduction with
  | nil => rfl
  | comparison connector c ps ih => rw [storedAll, stored, mapComparisons_comparison_cons, ih]
  | group connector children ps ihc ih =>
    rw [storedAll, stored, mapComparisons_group_cons, ihc, ih]

theorem Request.stored_eq_mapComparisons (r : Request) :
    r.stored = r.mapComparisons Comparison.stored := by
  have hlink : Link.stored = Link.mapComparisons Comparison.stored := by
    funext l
    rw [Link.stored, Link.mapComparisons, Predicate.storedAll_eq_mapComparisons]
  rw [stored, mapComparisons, hlink, Predicate.storedAll_eq_mapComparisons]

theorem Comparison.namesAlike_stored (c : Comparison) : Request.NamesAlike c.stored c := by
  refine ⟨rfl, ?_⟩
  show c.value.stored.aliasName? = c.value.aliasName?
  cases c.value <;> rfl

theorem Request.validate_stored (r : Request) : r.stored.validate = r.validate := by
  rw [stored_eq_mapComparisons]
  exact validate_mapComparisons Comparison.namesAlike_stored r

/-! ## What is written -/

namespace Compiler

/-- The value of a comparison means the same when it comes back: a date-time as a literal only by
chance, where seconds are asked for and are the year, and a date-time in a list never. -/
structure KeepsMeaning (k : Compiler) (r : Request) (c : Comparison) : Prop where
  literal : ∀ t, c.value = .literal (.dateTime t) → ∀ name type, r.classOf c.table = .ok name →
    k.catalog.fieldType name c.field = .ok type → type ∈ [DomainType.integer, .timestamp, .other] ∧
      Int64.ofIntClamp t.year = Int64.ofInt t.epochSeconds
  list : ∀ items, c.value = .list items → ∀ t, .dateTime t ∉ items

theorem comparison_stored {k : Compiler} {r : Request} {c : Comparison}
    (h : c.operator.takesValue = true → k.KeepsMeaning r c) :
    k.comparison r c.stored = k.comparison r c := by
  have hoperand : k.operand r c.stored = k.operand r c := by
    unfold operand Comparison.stored
    dsimp only
    split
    · rename_i htakes
      have hc := h htakes
      cases hv : c.value with
      | none => rfl
      | column aliasName field => rfl
      | literal s =>
        simp only [Value.stored]
        cases hname : r.classOf c.table with
        | error e => rfl
        | ok name =>
          simp only [Outcome.ok_bind]
          cases htype : k.catalog.fieldType name c.field with
          | error e => rfl
          | ok type =>
            have hcoerce : coerce type s.stored = coerce type s :=
              (coerce_stored_iff type s).2 fun t ht => hc.literal t (ht ▸ hv) name type hname htype
            simp only [Outcome.ok_bind, hcoerce]
      | list items =>
        have hitems : items.map Scalar.stored = items.map fun s => s :=
          List.map_congr_left fun s hs => Scalar.stored_eq_self fun t ht =>
            hc.list items hv t (ht ▸ hs)
        simp only [Value.stored, hitems, List.map_id']
    · rfl
  unfold comparison
  rw [hoperand]
  rfl

end Compiler

namespace Request

/-- A request comes back from its tree, and from its text if the text keeps it. It passes the same
checks, and has the same statements if the values that its operators ask for keep their meaning. Of
the scalars that it holds, one comes back with its meaning under a type exactly if it is no date-time,
or one whose year is its seconds where these are asked for, and with its meaning in a list exactly if
it is no date-time. -/
theorem statements_stored (r : Request) (h : r.Storable) :
    ∃ r', ofJson? r.toJson = some r' ∧
      (r.TextStorable → readStored r.toJson.compact = .ok r') ∧ r'.validate = r.validate ∧
      (∀ k : Compiler,
        (∀ c ∈ r.allComparisons, c.operator.takesValue = true → k.KeepsMeaning r c) →
          k.select r' = k.select r ∧ k.count r' = k.count r) ∧
      ∀ s ∈ r.heldScalars, ∃ s', Scalar.ofJson? s.toJson = some s' ∧
        (∀ type, coerce type s' = coerce type s ↔
          ∀ t, s = .dateTime t → type ∈ [DomainType.integer, .timestamp, .other] ∧
            Int64.ofIntClamp t.year = Int64.ofInt t.epochSeconds) ∧
        (element s' = element s ↔ ∀ t, s ≠ .dateTime t) := by
  refine ⟨r.stored, ofJson?_toJson h, readStored_compact, validate_stored r, fun k hk => ?_,
    fun s hs => ⟨s.stored, Scalar.ofJson?_toJson (h.finite s hs),
      fun type => coerce_stored_iff type s, element_stored_iff s⟩⟩
  have hstored := r.stored_eq_mapComparisons
  have hcomparison (c : Comparison) (hc : c ∈ r.allComparisons) :
      k.comparison r.stored c.stored = k.comparison r c := by
    have htables : k.comparison r.stored c.stored = k.comparison r c.stored :=
      Compiler.comparison_congr rfl fun _ _ _ => rfl
    rw [htables, Compiler.comparison_stored (hk c hc)]
  have hbody : k.body r.stored = k.body r :=
    Compiler.body_mapComparisons (congrArg links hstored) (congrArg conditions hstored)
      (fun _ _ => rfl) hcomparison
  exact Compiler.statements_congr rfl (validate_stored r) hbody

/-- In the year 1970 and in the second 1970, with a quarter of the second gone by. -/
def momentOfYear : DateTime := ⟨1970, 1, 1, 0, 32, ⟨50, 250000000⟩⟩

/-- Floats, a list, and date-times that keep their meaning: one that is not asked for, and one whose
year is its seconds. -/
def datedByChance : Request :=
  (((new "Event" "event").select 0 ["id"]).filter
    (.comparison none ⟨0, "at", .greater, .literal (.dateTime momentOfYear)⟩)).filter
      (.group (some .or) [
        .comparison none ⟨0, "rate", .isIn, .list [.float 0.5, .text "x", .int 7, .bool true]⟩,
        .comparison (some .and) ⟨0, "at", .isNull, .literal (.dateTime ⟨2024, 3, 9, 8, 5, 0⟩)⟩])

/-- Events with the seconds of a moment. -/
def eventCompiler (type : DomainType) : Compiler where
  catalog := Catalog.empty.add "Event" ⟨"events", (∅ : Sorted String DomainType).insert "at" type⟩
  sentinel := -1

theorem allComparisons_datedByChance : datedByChance.allComparisons = [
    ⟨0, "at", .greater, .literal (.dateTime momentOfYear)⟩,
    ⟨0, "rate", .isIn, .list [.float 0.5, .text "x", .int 7, .bool true]⟩,
    ⟨0, "at", .isNull, .literal (.dateTime ⟨2024, 3, 9, 8, 5, 0⟩)⟩] := rfl

theorem textStorable_datedByChance : datedByChance.TextStorable := by
  have hheld : datedByChance.heldScalars = [.dateTime momentOfYear, .float 0.5, .text "x",
    .int 7, .bool true, .dateTime ⟨2024, 3, 9, 8, 5, 0⟩] := rfl
  have hfloat : (Decimal.Binary.ofFloat 0.5).isFinite = true := by decide +kernel
  refine ⟨⟨by simp [hheld, hfloat, Scalar.IsFinite], by decide, by decide⟩, ?_, nofun, nofun,
    by decide, by decide, nofun⟩
  rw [allComparisons_datedByChance]
  simp only [List.forall_mem_cons]
  refine ⟨⟨by decide, ?_⟩, ⟨by decide, ?_⟩, ⟨by decide, ?_⟩, nofun⟩
  · simp [Value.scalars, Scalar.IsLegible]
  · have hhalf := Scalar.isLegible_half
    simp [Value.scalars, Scalar.IsLegible] at hhalf ⊢
    exact hhalf
  · simp [Value.scalars, Scalar.IsLegible]

theorem statements_stored_datedByChance : ∃ r',
    readStored datedByChance.toJson.compact = .ok r' ∧ r'.validate = .ok () ∧
      (eventCompiler .integer).select r' = (eventCompiler .integer).select datedByChance ∧
      (eventCompiler .integer).count r' = (eventCompiler .integer).count datedByChance := by
  have htext := textStorable_datedByChance
  obtain ⟨r', -, hread, hvalid, hstatements, -⟩ := statements_stored datedByChance htext.toStorable
  have hkeeps : ∀ c ∈ datedByChance.allComparisons, c.operator.takesValue = true →
      (eventCompiler .integer).KeepsMeaning datedByChance c := by
    rw [allComparisons_datedByChance]
    simp only [List.forall_mem_cons]
    refine ⟨fun _ => ⟨?_, nofun⟩, fun _ => ⟨nofun, ?_⟩, nofun, nofun⟩
    · rintro t ⟨⟩ name type ⟨⟩ htype
      have hinteger : (eventCompiler .integer).catalog.fieldType "Event" "at" = .ok .integer := rfl
      cases hinteger.symm.trans htype
      decide
    · rintro items ⟨⟩ t
      simp
  exact ⟨r', hread htext, hvalid, hstatements _ hkeeps⟩

/-- A request with one date-time, for a field that is compared as a text. -/
def dated : Request :=
  ((new "Event" "event").select 0 ["id"]).filter
    (.comparison none ⟨0, "at", .equal, .literal (.dateTime ⟨2024, 3, 9, 8, 5, 0⟩)⟩)

/-- A request does not always come back with its statements. -/
theorem exists_statement_changed : ∃ (r r' : Request) (k : Compiler),
    r.Storable ∧ r.validate = .ok () ∧ readStored r.toJson.compact = .ok r' ∧
      k.select r' ≠ k.select r ∧ k.count r' ≠ k.count r := by
  have hheld : dated.heldScalars = [.dateTime ⟨2024, 3, 9, 8, 5, 0⟩] := rfl
  have hcomparisons : dated.allComparisons
      = [⟨0, "at", .equal, .literal (.dateTime ⟨2024, 3, 9, 8, 5, 0⟩)⟩] := rfl
  have htext : dated.TextStorable := by
    refine ⟨⟨by simp [hheld, Scalar.IsFinite], by decide, by decide⟩, ?_, nofun, nofun, by decide,
      by decide, nofun⟩
    rw [hcomparisons, List.forall_mem_singleton]
    exact ⟨by decide, by simp [Value.scalars, Scalar.IsLegible]⟩
  have hselect : ((eventCompiler .string).select dated.stored).toOption
      ≠ ((eventCompiler .string).select dated).toOption := by decide +kernel
  have hcount : ((eventCompiler .string).count dated.stored).toOption
      ≠ ((eventCompiler .string).count dated).toOption := by decide +kernel
  exact ⟨dated, dated.stored, eventCompiler .string, htext.toStorable, rfl,
    readStored_compact htext, fun h => hselect (congrArg _ h), fun h => hcount (congrArg _ h)⟩

/-- A request with one float, which its text does not keep. -/
def rated : Request :=
  ((new "Event" "event").select 0 ["id"]).filter
    (.comparison none ⟨0, "at", .greater, .literal (.float Scalar.roundedTwice)⟩)

/-- A request whose tree gives it back may still come back from its text with other statements: a
float that is not legible is written with another digit. -/
theorem exists_statement_rounded : ∃ (r r' : Request) (k : Compiler),
    r.Storable ∧ (∀ s ∈ r.heldScalars, (∀ t, s ≠ .dateTime t) ∧ ¬ s.IsLegible) ∧
      r.validate = .ok () ∧ ofJson? r.toJson = some r ∧ readStored r.toJson.compact = .ok r' ∧
        k.select r' ≠ k.select r ∧ k.count r' ≠ k.count r := by
  have hheld : rated.heldScalars = [.float Scalar.roundedTwice] := rfl
  have hfinite : (Decimal.Binary.ofFloat Scalar.roundedTwice).isFinite = true := by decide +kernel
  have hstorable : rated.Storable :=
    ⟨by simp [hheld, hfinite, Scalar.IsFinite], by decide, by decide⟩
  have hback : ofJson? rated.toJson = some rated := by
    rw [ofJson?_toJson hstorable, stored_eq_self (by simp [hheld])]
  have hrun : ((fun r' => decide
      (((eventCompiler .float).select r').toOption ≠ ((eventCompiler .float).select rated).toOption ∧
        ((eventCompiler .float).count r').toOption ≠ ((eventCompiler .float).count rated).toOption))
          <$> readStored rated.toJson.compact).toOption = some true := by
    rw [readStored, Json.read?_compact_eq]
    decide +kernel
  obtain ⟨r', hr', hdiffer⟩ := map_eq_ok_iff.1 (toOption_eq_some_iff.1 hrun)
  obtain ⟨hselect, hcount⟩ := of_decide_eq_true hdiffer
  refine ⟨rated, r', eventCompiler .float, hstorable, ?_, rfl, hback, hr',
    fun h => hselect (congrArg _ h), fun h => hcount (congrArg _ h)⟩
  rw [hheld, List.forall_mem_singleton]
  refine ⟨fun t h => ?_, Scalar.not_isLegible_roundedTwice⟩
  cases h

end Request

end QueryCompiler
