import QueryCompiler.Decimal.Binary
import QueryCompiler.Proofs.Decimal.Rounding

/-!
# Finite floats

Which floats are numbers. A float is one if it is unpacked as one; negation keeps it, a product
keeps it unless it is infinite, a quotient by a power of ten keeps it, and the float of an unsigned
word is one.

1. `isFinite_ofFloat_iff`: what the bits say and what is unpacked agree.
2. `sizeUpTo_ofNat`: the float of a word is far below the largest one, whichever way it is made.
3. `sizeFrom_ofScientific`: a power of ten up to `10 ^ 308` is at least one.

Main statements: `isFinite_ofNat`, `isFinite_mul_of_isInf` and `sizeUpTo_div`.
-/

namespace QueryCompiler.Decimal

open Float.Model Float.Model.UnpackedFloat

/-- The bits of the exponent, shifted and masked. -/
theorem toNat_unpackExponent (bits : UInt64) :
    (@unpackExponent Format.binary64 bits.toBitVec).toNat =
      ((bits >>> 52) &&& 0x7FF).toNat := by
  have hexp : (@unpackExponent Format.binary64 bits.toBitVec).toNat
      = bits.toNat / 2 ^ 52 % 2 ^ 11 := by
    simp only [unpackExponent, BitVec.toNat_cast, BitVec.extractLsb_toNat,
      Nat.shiftRight_eq_div_pow]
    rfl
  rw [hexp, UInt64.toNat_and, UInt64.toNat_shiftRight]
  show _ = bits.toNat >>> 52 &&& (2 ^ 11 - 1)
  rw [Nat.and_two_pow_sub_one_eq_mod, Nat.shiftRight_eq_div_pow]

theorem Binary.isFinite_ofBits_iff {bits : UInt64} :
    (ofBits bits).isFinite = true ↔ @unpackExponent Format.binary64 bits.toBitVec ≠ -1#11 := by
  rw [ne_eq, ← BitVec.toNat_inj, toNat_unpackExponent, ofBits]
  show _ ↔ ¬ ((bits >>> 52) &&& 0x7FF).toNat = 0x7FF
  generalize ((bits >>> 52) &&& 0x7FF).toNat = field
  by_cases h : field = 0x7FF
  · simp only [h, if_true]
    split <;> simp [isFinite]
  · simp only [h, if_false]
    split <;> simp [isFinite]

variable {x t : Float} {bound : Int}

theorem isFinite_ofFloat_iff :
    (Binary.ofFloat x).isFinite = true ↔ x.toModel.unpack.isFinite = true := by
  rw [Binary.ofFloat, Binary.isFinite_ofBits_iff]
  exact ⟨fun h => (exponentUpTo_unpack h).isFinite, unpackExponent_of_isFinite⟩

/-! ## Operations -/

theorem isFinite_neg (h : (Binary.ofFloat x).isFinite = true) :
    (Binary.ofFloat (-x)).isFinite = true := by
  have hexp : ExponentUpTo 971 x.toModel.unpack :=
    exponentUpTo_unpack (Binary.isFinite_ofBits_iff.1 h)
  have hneg : ExponentUpTo 971 x.toModel.unpack.neg := by
    cases hx : x.toModel.unpack with
    | zero => trivial
    | finite =>
      rw [hx] at hexp
      exact hexp
    | _ =>
      rw [hx] at hexp
      exact hexp.elim
  exact Binary.isFinite_ofBits_iff.2 (unpackExponent_pack hneg)

/-- A product of numbers is a number if it is not infinite. -/
theorem isFinite_mul_of_isInf (hx : (Binary.ofFloat x).isFinite = true)
    (ht : (Binary.ofFloat t).isFinite = true) (h : (x * t).isInf = false) :
    (Binary.ofFloat (x * t)).isFinite = true := by
  rw [isFinite_ofFloat_iff] at *
  by_contra hinf
  rw [Bool.not_eq_true] at hinf
  have hinf : (x * t).isInf = true := isInf_unpack_pack (isFinite_mul hx ht) hinf
  rw [h] at hinf
  cases hinf

/-- A quotient by what is at least one grows by one bit at most. -/
theorem sizeUpTo_div (hlow : -1022 < bound) (hb : bound ≤ 1000)
    (hx : SizeUpTo bound x.toModel.unpack) (ht : SizeFrom 1 t.toModel.unpack) :
    SizeUpTo (bound + 1) (x / t).toModel.unpack := by
  have hexp : ExponentUpTo (bound - 52)
      (UnpackedFloat.div Format.binary64 x.toModel.unpack t.toModel.unpack) :=
    exponentUpTo_div (by omega) (hx.mono (by omega)) ht
  have hsize : SizeUpTo (bound - 52 + 53) (x / t).toModel.unpack :=
    sizeUpTo_unpack_pack hexp (by omega) (by omega)
  exact hsize.mono (by omega)

/-! ## Integers -/

theorem sizeUpTo_toFloat (w : UInt64) : SizeUpTo 66 w.toFloat.toModel.unpack := by
  have hexp : ExponentUpTo 13 (UnpackedFloat.ofUInt64 Format.binary64 w) := by
    show ExponentUpTo 13 (UnpackedFloat.normalize Format.binary64 w.toNat 0 .positive)
    unfold UnpackedFloat.normalize
    split
    · rename_i h
      exact absurd (Int.compare_eq_lt.1 h) (by omega)
    · trivial
    · have hlog : w.toNat.log2 ≤ 64 := log2_le_of_le w.toNat_lt.le
      refine exponentUpTo_round (by decide) (by decide) ?_
      show (w.toNat.log2 : Int) + 1 + 0 ≤ 13 + 52
      omega
  exact sizeUpTo_unpack_pack hexp (by decide) (by decide)

theorem ofNat_eq_mul {n : Nat} (h : n < 2 ^ 53) :
    Float.ofNat n = n.toUInt64.toFloat * Float.ofBits 0x3FF0000000000000 := by
  have hn : n < 2 ^ 53 ∧ 0 ≤ 22 := ⟨h, by decide⟩
  unfold Float.ofNat OfScientific.ofScientific instOfScientificFloat Float.ofScientific
  exact dif_pos hn

theorem ofScientific_eq_ofModel {n k : Nat} (h : ¬ (n < 2 ^ 53 ∧ k ≤ 22)) :
    Float.ofScientific n false k = .ofModel (.ofScientific n k) := by
  unfold Float.ofScientific
  exact dif_neg h

/-- A product with a power of ten is rounded once. -/
theorem ofScientific_eq_round {n k : Nat} (hn : n ≠ 0) (hk : k ≤ 2048) :
    UnpackedFloat.ofScientific Format.binary64 n k =
      roundWithAccuracy Format.binary64 .positive (n <<< 53 * 10 ^ k) (-53) .exact := by
  have hbig : ¬ (k : Int) > 2 ^ Format.binary64.exponentBits := by
    show ¬ (k : Int) > 2048
    omega
  have hsmall : ¬ (k : Int) < -((2 ^ Format.binary64.exponentBits : Int) + n.log2) := by
    show ¬ (k : Int) < -(2048 + n.log2)
    omega
  rw [UnpackedFloat.ofScientific, dif_neg hn, if_neg hbig, if_neg hsmall,
    if_pos (Int.natCast_nonneg k)]
  rfl

theorem sizeUpTo_ofNat {n : Nat} (h : n < 2 ^ 64) :
    SizeUpTo 120 (Float.ofNat n).toModel.unpack := by
  by_cases hn : n < 2 ^ 53
  · have hone : SizeUpTo 1 (Float.ofBits 0x3FF0000000000000).toModel.unpack := by decide
    have hmul := exponentUpTo_mul (by decide) (sizeUpTo_toFloat n.toUInt64) hone
    rw [ofNat_eq_mul hn]
    exact (sizeUpTo_unpack_pack hmul (by decide) (by decide)).mono (by decide)
  · have hlog : (n <<< 53 * 10 ^ 0).log2 ≤ 117 := by
      refine log2_le_of_le ?_
      rw [Nat.shiftLeft_eq]
      omega
    have hexp : ExponentUpTo 13 (UnpackedFloat.ofScientific Format.binary64 n (0 : Nat)) := by
      rw [ofScientific_eq_round (by omega) (by decide)]
      generalize n <<< 53 * 10 ^ 0 = m at *
      refine exponentUpTo_roundWithAccuracy (by omega) (by omega) ?_
      unfold totalExponent
      omega
    have hofNat : Float.ofNat n = .ofModel (.ofScientific n (0 : Nat)) :=
      ofScientific_eq_ofModel fun h => hn h.1
    rw [hofNat]
    exact (sizeUpTo_unpack_pack hexp (by decide) (by decide)).mono (by decide)

/-- The float of an unsigned word is a number. -/
theorem isFinite_ofNat {n : Nat} (h : n < 2 ^ 64) :
    (Binary.ofFloat (Float.ofNat n)).isFinite = true :=
  isFinite_ofFloat_iff.2 (sizeUpTo_ofNat h).isFinite

/-! ## Powers of ten -/

theorem sizeFrom_ofScientific {k : Nat} (hk : k ≤ 308) :
    SizeFrom 1 (Float.ofScientific 1 false k).toModel.unpack := by
  -- The exact powers come from a table, and the last one is next to the largest float.
  have hends : ∀ k ∈ 308 :: List.range 23,
      SizeFrom 1 (Float.ofScientific 1 false k).toModel.unpack := by
    decide +kernel
  by_cases hsmall : k ≤ 22
  · exact hends k (List.mem_cons_of_mem _ (List.mem_range.2 (by omega)))
  by_cases hlarge : k = 308
  · exact hends k (hlarge ▸ List.mem_cons_self)
  have hpos : 1 <<< 53 ≤ 1 <<< 53 * 10 ^ k :=
    Nat.le_mul_of_pos_right _ (Nat.pow_pos (by decide))
  have htop : ∀ k < 308, (1 <<< 53 * 10 ^ k).log2 < 1073 := by decide +kernel
  have hhigh := htop k (by omega)
  rw [ofScientific_eq_ofModel fun h => hsmall h.2]
  show SizeFrom 1 (Float.Model.pack (UnpackedFloat.ofScientific Format.binary64 1 k)).unpack
  rw [ofScientific_eq_round Nat.one_ne_zero (by omega)]
  generalize 1 <<< 53 * 10 ^ k = m at hpos hhigh
  have hm : m ≠ 0 := by
    rintro rfl
    exact absurd hpos (by decide)
  have hlow : 53 ≤ m.log2 := (Nat.le_log2 hm).2 hpos
  refine SizeFrom.mono (sizeFrom_unpack_pack (normalIn_roundWithAccuracy ?_ ?_) ?_ ?_) ?_ <;> omega

end QueryCompiler.Decimal
