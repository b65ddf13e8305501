import QueryCompiler.Json.Reader
import QueryCompiler.Proofs.Decimal.Finite
import QueryCompiler.Proofs.Json.Record

/-!
# Numbers of a text

Whatever text is read as JSON, the numbers in the tree are in range: an integer that does not fit 64
bits becomes a float, and a float beyond all others spoils the value that it stands for.

1. `gather_lt`: the digits of a float are gathered in a word.
2. `sizeUpTo_scaleDown`: a division by a power of ten, in however many steps, stays within range.
3. `isFinite_of_magnitude?` and `inRange_of_number?`: so every number is in range.
4. `ReadsInRange` says it of values, items and members with some fuel: `value_succ`, `items_succ`
   and `members_succ` add a step, `readsInRange` is the induction.

Main statement: `inRange_of_read?`.
-/

namespace QueryCompiler.Json

open Decimal

/-! ## Floats -/

theorem gather_lt {start : Nat} {cs : List Char} (h : start < UInt64.size) :
    (gather start cs).1 < UInt64.size := by
  induction cs generalizing start with
  | nil => exact h
  | cons c cs ih =>
    simp only [gather]
    split
    · rename_i hnext
      exact ih hnext
    · exact h

/-- Each division by a power of ten adds one bit at most. -/
theorem sizeUpTo_scaleDown {rounds : Nat} {x : Float} {k : Nat} {bound : Int}
    (hlow : -1022 < bound) (hb : bound + rounds ≤ 1000) (hx : SizeUpTo bound x.toModel.unpack) :
    SizeUpTo (bound + rounds) (scaleDown x k rounds).toModel.unpack := by
  induction rounds generalizing x k bound with
  | zero => exact hx.mono (by omega)
  | succ rounds ih =>
    have hstep {k : Nat} (hk : k ≤ 308) : SizeUpTo (bound + 1) (x / tenTo k).toModel.unpack :=
      sizeUpTo_div hlow (by omega) hx (sizeFrom_ofScientific hk)
    simp only [scaleDown]
    split
    · rename_i hk
      exact (hstep hk).mono (by omega)
    · split
      · exact hx.mono (by omega)
      · exact (ih (by omega) (by omega) (hstep (Nat.le_refl 308))).mono (by omega)

theorem isFinite_of_scaled? {n : Nat} {power : Int} {x : Float} (hn : n < UInt64.size)
    (h : scaled? n power = some x) : (Binary.ofFloat x).isFinite = true := by
  have hsize : SizeUpTo 120 (Float.ofNat n).toModel.unpack := sizeUpTo_ofNat hn
  simp only [scaled?] at h
  split at h
  · cases h
    have hdown : SizeUpTo (120 + (4 : Nat))
        (scaleDown (Float.ofNat n) power.natAbs 4).toModel.unpack :=
      sizeUpTo_scaleDown (by decide) (by decide) hsize
    exact isFinite_ofFloat_iff.2 hdown.isFinite
  · split at h
    · rename_i hpower
      split at h
      · cases h
      · rename_i hinf
        cases h
        have hten : SizeFrom 1 (tenTo power.natAbs).toModel.unpack :=
          sizeFrom_ofScientific (by omega)
        exact isFinite_mul_of_isInf (isFinite_ofNat hn) (isFinite_ofFloat_iff.2 hten.isFinite)
          (Bool.eq_false_iff.2 hinf)
    · split at h
      · cases h
        exact isFinite_ofNat hn
      · cases h

theorem isFinite_of_magnitude? {whole fraction : List Char} {power : Int} {x : Float}
    (h : magnitude? whole fraction power = some x) : (Binary.ofFloat x).isFinite = true :=
  isFinite_of_scaled? (gather_lt (gather_lt (by decide))) h

/-! ## Numbers -/

theorem inRange_signedFloat {negative : Bool} {x : Float}
    (h : (Binary.ofFloat x).isFinite = true) : InRange (signedFloat negative x) := by
  refine .float ?_
  cases negative with
  | false => exact h
  | true => exact isFinite_neg h

theorem inRange_ofDecimal (negative : Bool) (whole fraction : List Char) (power : Int) :
    InRange (ofDecimal negative whole fraction power) := by
  unfold ofDecimal
  split
  · rename_i x hx
    exact inRange_signedFloat (isFinite_of_magnitude? hx)
  · exact .unreadable

theorem inRange_ofInteger (negative : Bool) (digits : List Char) :
    InRange (ofInteger negative digits) := by
  have hlarge (negative : Bool) : InRange (ofDecimal negative digits [] 0) :=
    inRange_ofDecimal negative digits [] 0
  simp only [ofInteger]
  cases negative with
  | true =>
    rw [if_pos rfl]
    split
    · rename_i h
      refine .int ⟨?_, ?_⟩ <;> omega
    · exact hlarge true
  | false =>
    rw [if_neg Bool.false_ne_true]
    split
    · rename_i h
      refine .int ⟨?_, ?_⟩ <;> omega
    · exact hlarge false

theorem inRange_of_number? {cs rest : List Char} {j : Json} (h : number? cs = some (j, rest)) :
    InRange j := by
  simp only [number?, Option.bind_eq_bind, Option.bind_eq_some_iff] at h
  obtain ⟨⟨whole, cs₁⟩, -, ⟨fraction, cs₂⟩, -, ⟨power, cs₃⟩, -, h⟩ := h
  split at h
  · cases h
    exact inRange_ofInteger _ _
  · cases h
    exact inRange_ofDecimal _ _ _ _

/-! ## Values -/

theorem inRange_ofElements (es : List Element) : InRange (ofElements es) := by
  unfold ofElements
  split
  · exact .text _
  · exact .unreadable

theorem inRange_ofMembers {ms : List ReadMember} (h : ∀ m ∈ ms, InRange m.2.2) :
    InRange (ofMembers ms) := by
  unfold ofMembers
  split
  · rename_i members hmembers
    refine .object fun m hm => ?_
    obtain ⟨m', hm', hread⟩ := exists_of_mem_of_mapM hmembers hm
    obtain ⟨k, -, rfl⟩ := Option.map_eq_some_iff.1 hread
    exact h m' hm'
  · exact .unreadable

theorem inRange_nested {levels : Nat} {j : Json} (h : InRange j) : InRange (nested levels j) := by
  unfold nested
  split
  · exact .unreadable
  · exact h

theorem eq_of_word? {w cs rest : List Char} {j j' : Json} (h : word? w j cs = some (j', rest)) :
    j' = j := by
  unfold word? at h
  split at h
  · cases h
    rfl
  · cases h

/-- With so much fuel, a value that is read is in range, and so are items and members. -/
structure ReadsInRange (fuel : Nat) : Prop where
  value {levels : Nat} {cs rest : List Char} {j : Json}
    (h : value? fuel levels cs = some (j, rest)) : InRange j
  items {levels : Nat} {cs rest : List Char} {js : List Json}
    (h : items? fuel levels cs = some (js, rest)) : ∀ j ∈ js, InRange j
  members {levels : Nat} {cs rest : List Char} {ms : List ReadMember}
    (h : members? fuel levels cs = some (ms, rest)) : ∀ m ∈ ms, InRange m.2.2

namespace ReadsInRange

variable {fuel levels : Nat} {cs rest : List Char}

theorem zero : ReadsInRange 0 where
  value h := by
    rw [value?] at h
    cases h
  items h := by
    rw [items?] at h
    cases h
  members h := by
    rw [members?] at h
    cases h

theorem value_succ {j : Json} (hf : ReadsInRange fuel)
    (h : value? (fuel + 1) levels cs = some (j, rest)) : InRange j := by
  unfold value? at h
  dsimp only at h
  split at h
  · cases h
  · obtain ⟨⟨es, rest'⟩, -, h⟩ := Option.bind_eq_some_iff.1 h
    cases h
    exact inRange_ofElements es
  · split at h
    · cases h
      exact inRange_nested (.array fun j hj => absurd hj List.not_mem_nil)
    · obtain ⟨⟨items, rest'⟩, hitems, h⟩ := Option.bind_eq_some_iff.1 h
      cases h
      exact inRange_nested (.array (hf.items hitems))
  · split at h
    · cases h
      exact inRange_nested (.object fun m hm => absurd hm List.not_mem_nil)
    · obtain ⟨⟨members, rest'⟩, hmembers, h⟩ := Option.bind_eq_some_iff.1 h
      cases h
      exact inRange_nested (inRange_ofMembers (hf.members hmembers))
  · rw [eq_of_word? h]
    exact .null
  · rw [eq_of_word? h]
    exact .bool true
  · rw [eq_of_word? h]
    exact .bool false
  · exact inRange_of_number? h

theorem items_succ {js : List Json} (hf : ReadsInRange fuel)
    (h : items? (fuel + 1) levels cs = some (js, rest)) : ∀ j ∈ js, InRange j := by
  rw [items?] at h
  obtain ⟨⟨j, rest'⟩, hj, h⟩ := Option.bind_eq_some_iff.1 h
  have hj : InRange j := hf.value hj
  dsimp only at h
  split at h
  · obtain ⟨⟨js', rest'⟩, hjs, h⟩ := Option.bind_eq_some_iff.1 h
    cases h
    exact List.forall_mem_cons.2 ⟨hj, hf.items hjs⟩
  · cases h
    exact List.forall_mem_singleton.2 hj
  · cases h

theorem members_succ {ms : List ReadMember} (hf : ReadsInRange fuel)
    (h : members? (fuel + 1) levels cs = some (ms, rest)) : ∀ m ∈ ms, InRange m.2.2 := by
  rw [members?] at h
  split at h
  · obtain ⟨⟨es, rest'⟩, -, h⟩ := Option.bind_eq_some_iff.1 h
    dsimp only at h
    split at h
    · obtain ⟨⟨j, rest'⟩, hj, h⟩ := Option.bind_eq_some_iff.1 h
      have hj : InRange j := hf.value hj
      dsimp only at h
      split at h
      · obtain ⟨⟨ms', rest'⟩, hms, h⟩ := Option.bind_eq_some_iff.1 h
        cases h
        exact List.forall_mem_cons.2 ⟨hj, hf.members hms⟩
      · cases h
        exact List.forall_mem_singleton.2 hj
      · cases h
    · cases h
  · cases h

theorem succ (hf : ReadsInRange fuel) : ReadsInRange (fuel + 1) :=
  ⟨hf.value_succ, hf.items_succ, hf.members_succ⟩

end ReadsInRange

theorem readsInRange (fuel : Nat) : ReadsInRange fuel := by
  induction fuel with
  | zero => exact .zero
  | succ fuel ih => exact ih.succ

/-- Whatever text is read, the numbers in it are in range. -/
theorem inRange_of_read? {s : String} {j : Json} (h : read? s = some j) : InRange j := by
  simp only [read?, Option.bind_eq_bind, Option.bind_eq_some_iff] at h
  obtain ⟨⟨j', rest⟩, hvalue, h⟩ := h
  split at h
  · cases h
    exact (readsInRange _).value hvalue
  · cases h

end QueryCompiler.Json
