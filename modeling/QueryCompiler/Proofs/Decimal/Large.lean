import QueryCompiler.Proofs.Decimal.Finite
import QueryCompiler.Proofs.Decimal.IntegerPrefix

/-!
# Large floats

From `2 ^ 53` on a float has no place left for a fraction, and what happens to it is a matter of its
exponent. `LargeFrom` bounds the exponent of a value from below and tells its sign.

1. `largeFrom_roundWithAccuracy`, `largeFrom_mul`: rounding and multiplication keep bounds.
2. `largeFrom_unpack_pack`: so does packing, as long as the result is finite.
3. `largeFrom_ofNat`, `largeFrom_ofScientific`: the floats of large integers and of powers of ten.

Main statement: `truncate_of_largeFrom` (what is beyond a word is held at its end).
-/

namespace QueryCompiler.Decimal

open Float.Model Float.Model.UnpackedFloat

/-- A finite value with a given sign that uses every bit of the mantissa, with an exponent from
`low` on. -/
def LargeFrom (sign : UnpackedFloat.Sign) (low : Int) : UnpackedFloat → Prop
  | .finite s mantissa exponent _ => s = sign ∧ mantissa.log2 = 52 ∧ low ≤ exponent
  | _ => False

instance : DecidableEq UnpackedFloat.Sign
  | .positive, .positive | .negative, .negative => .isTrue rfl
  | .positive, .negative | .negative, .positive => .isFalse nofun

instance (sign : UnpackedFloat.Sign) (low : Int) (f : UnpackedFloat) :
    Decidable (LargeFrom sign low f) :=
  match f with
  | .finite s m e _ => inferInstanceAs (Decidable (s = sign ∧ m.log2 = 52 ∧ low ≤ e))
  | .zero _ | .infinity _ | .notANumber => .isFalse id

variable {f t : UnpackedFloat} {sign : UnpackedFloat.Sign} {m n k : Nat} {e low low' : Int}
  {a : Accuracy} {x y : Float}

theorem LargeFrom.mono (h : LargeFrom sign low f) (hle : low' ≤ low) : LargeFrom sign low' f := by
  cases f with
  | finite => exact ⟨h.1, h.2.1, hle.trans h.2.2⟩
  | _ => exact h

theorem LargeFrom.isFinite (h : LargeFrom sign low f) : f.isFinite = true := by
  cases f with
  | finite => rfl
  | _ => exact h.elim

/-! ## Unpacked -/

/-- A mantissa with bits enough keeps its size and its sign. -/
theorem largeFrom_roundWithAccuracy (hm : 52 ≤ m.log2) (hlow : -1074 ≤ low)
    (he : low ≤ m.log2 + e - 52) :
    LargeFrom sign low (roundWithAccuracy Format.binary64 sign m e a) := by
  have hnormal : NormalIn (m.log2 + e - 52) (m.log2 + e - 51)
      (roundWithAccuracy Format.binary64 sign m e a) :=
    normalIn_roundWithAccuracy hm (hlow.trans he)
  simp only [roundWithAccuracy] at hnormal ⊢
  split at hnormal
  · exact hnormal.elim
  · rename_i hzero
    obtain ⟨hlog, hle, -⟩ := hnormal
    rw [dif_neg hzero]
    exact ⟨rfl, hlog, he.trans hle⟩

theorem largeFrom_mul (hlow : -1074 ≤ low + low' + 52) (hf : LargeFrom .positive low f)
    (ht : LargeFrom .positive low' t) :
    LargeFrom .positive (low + low' + 52) (UnpackedFloat.mul Format.binary64 f t) := by
  cases f with
  | finite s₁ m₁ e₁ hm₁ =>
    cases t with
    | finite s₂ m₂ e₂ hm₂ =>
      obtain ⟨rfl, hlog₁, hle₁⟩ := hf
      obtain ⟨rfl, hlog₂, hle₂⟩ := ht
      have hpow {m : Nat} (hm : 0 < m) (hlog : m.log2 = 52) : 2 ^ 52 ≤ m :=
        hlog ▸ Nat.log2_self_le hm.ne'
      have hprod : 2 ^ 52 * 2 ^ 52 ≤ m₁ * m₂ :=
        Nat.mul_le_mul (hpow hm₁ hlog₁) (hpow hm₂ hlog₂)
      have hlog : 104 ≤ (m₁ * m₂).log2 := by
        rw [Nat.le_log2 (Nat.mul_pos hm₁ hm₂).ne']
        rwa [← Nat.pow_add] at hprod
      exact largeFrom_roundWithAccuracy (by omega) hlow (by omega)
    | _ => exact ht.elim
  | _ => exact hf.elim

theorem largeFrom_neg (h : LargeFrom .positive low f) : LargeFrom .negative low f.neg := by
  cases f with
  | finite =>
    obtain ⟨rfl, h⟩ := h
    exact ⟨rfl, h⟩
  | _ => exact h.elim

/-! ## Packed -/

theorem largeFrom_unpack {b : BitVec 64} (h : @unpackExponent Format.binary64 b ≠ -1#11)
    (h0 : @unpackExponent Format.binary64 b ≠ 0#11) :
    LargeFrom (Sign.ofBitVec (@unpackSign Format.binary64 b))
      ((@unpackExponent Format.binary64 b).toNat - 1075) (unpack Format.binary64 b) := by
  have hlog : (1#1 ++ @unpackMantissa Format.binary64 b).toNat.log2 = 52 := log2_one_append _
  simp only [UnpackedFloat.unpack, if_neg h, if_neg h0]
  refine ⟨rfl, hlog, ?_⟩
  show ((@unpackExponent Format.binary64 b).toNat : Int) - 1075 ≤
    (@unpackExponent Format.binary64 b).toNat - (1023 + 52)
  omega

theorem ofBitVec_unpackSign_pack {hm : 0 < m} (he : e ≤ 971) :
    Sign.ofBitVec (@unpackSign Format.binary64 (UnpackedFloat.pack _ (.finite sign m e hm))) =
      sign := by
  rw [pack_eq_packComponents he, unpackSign_packComponents]
  cases sign <;> rfl

theorem exponent_le_of_isFinite {hm : 0 < m}
    (h : (Float.Model.pack (.finite sign m e hm)).unpack.isFinite = true) : e ≤ 971 := by
  by_contra hlarge
  have hinf : (Float.Model.pack (.finite sign m e hm)).unpack.isInf = true :=
    isInf_unpack_pack_of_lt (Int.not_le.1 hlarge)
  generalize (Float.Model.pack (.finite sign m e hm)).unpack = f at h hinf
  cases f with
  | infinity => cases h
  | zero | finite | notANumber => cases hinf

/-- Packing keeps size and sign of what stays finite. -/
theorem largeFrom_unpack_pack (h : LargeFrom sign low f) (hlow : -1074 < low)
    (hfinite : (Float.Model.pack f).unpack.isFinite = true) :
    LargeFrom sign low (Float.Model.pack f).unpack := by
  cases f with
  | finite s m e hm =>
    obtain ⟨rfl, hlog, hle⟩ := h
    have he : e ≤ 971 := exponent_le_of_isFinite hfinite
    have hfield := @toNat_unpackExponent_pack s m e hm he
    rw [if_pos hlog] at hfield
    have hne0 : @unpackExponent Format.binary64
        (UnpackedFloat.pack _ (.finite s m e hm)) ≠ 0#11 := by
      intro heq
      rw [heq] at hfield
      have : 0 = (e + 1075).toNat := hfield
      omega
    have hlarge := largeFrom_unpack (b := UnpackedFloat.pack Format.binary64 (.finite s m e hm))
      (unpackExponent_of_isFinite hfinite) hne0
    rw [ofBitVec_unpackSign_pack he, hfield] at hlarge
    exact hlarge.mono (by omega)
  | _ => exact h.elim

/-! ## Floats -/

theorem largeFrom_float_mul (hlow : -1074 < low + low' + 52)
    (hx : LargeFrom .positive low x.toModel.unpack) (hy : LargeFrom .positive low' y.toModel.unpack)
    (hinf : (x * y).isInf = false) :
    LargeFrom .positive (low + low' + 52) (x * y).toModel.unpack := by
  have hfinite : (Binary.ofFloat (x * y)).isFinite = true :=
    isFinite_mul_of_isInf (isFinite_ofFloat_iff.2 hx.isFinite) (isFinite_ofFloat_iff.2 hy.isFinite)
      hinf
  exact largeFrom_unpack_pack (largeFrom_mul hlow.le hx hy) hlow (isFinite_ofFloat_iff.1 hfinite)

theorem largeFrom_float_neg (hlow : -1074 < low) (h : LargeFrom .positive low x.toModel.unpack) :
    LargeFrom .negative low (-x).toModel.unpack := by
  have hfinite : (Binary.ofFloat (-x)).isFinite = true :=
    isFinite_neg (isFinite_ofFloat_iff.2 h.isFinite)
  exact largeFrom_unpack_pack (largeFrom_neg h) hlow (isFinite_ofFloat_iff.1 hfinite)

theorem largeFrom_ofNat (hn : 2 ^ 53 ≤ n) (h : n < 2 ^ 64) :
    LargeFrom .positive (n.log2 - 52) (Float.ofNat n).toModel.unpack := by
  have hn0 : n ≠ 0 := by omega
  have hlog : n.log2 + 53 ≤ (n <<< 53 * 10 ^ 0).log2 := by
    rw [Nat.pow_zero, Nat.mul_one, Nat.shiftLeft_eq, Nat.le_log2 (by omega), Nat.pow_add]
    exact Nat.mul_le_mul_right _ (Nat.log2_self_le hn0)
  have hlog53 : 53 ≤ n.log2 := (Nat.le_log2 hn0).2 hn
  have hlarge : LargeFrom .positive (n.log2 - 52)
      (UnpackedFloat.ofScientific Format.binary64 n (0 : Nat)) := by
    rw [ofScientific_eq_round hn0 (by decide)]
    generalize n <<< 53 * 10 ^ 0 = m at hlog
    exact largeFrom_roundWithAccuracy (by omega) (by omega) (by omega)
  have hofNat : Float.ofNat n = .ofModel (.ofScientific n (0 : Nat)) :=
    ofScientific_eq_ofModel fun h => Nat.not_lt.2 hn h.1
  have hfinite := isFinite_ofFloat_iff.1 (isFinite_ofNat h)
  rw [hofNat] at hfinite ⊢
  exact largeFrom_unpack_pack hlarge (by omega) hfinite

theorem largeFrom_ofScientific (hk : k ≤ 308) :
    LargeFrom .positive (if k = 0 then -52 else -49)
      (Float.ofScientific 1 false k).toModel.unpack := by
  have hends : ∀ k ∈ 308 :: List.range 23, LargeFrom .positive (if k = 0 then -52 else -49)
      (Float.ofScientific 1 false k).toModel.unpack := by
    decide +kernel
  by_cases hsmall : k ≤ 22
  · exact hends k (List.mem_cons_of_mem _ (List.mem_range.2 (by omega)))
  have hpos : 1 <<< 53 * 10 ≤ 1 <<< 53 * 10 ^ k :=
    Nat.mul_le_mul_left _ (Nat.le_self_pow (by omega) 10)
  have hfinite := (sizeFrom_ofScientific hk).isFinite
  rw [if_neg (by omega)]
  rw [ofScientific_eq_ofModel fun h => hsmall h.2] at hfinite ⊢
  refine largeFrom_unpack_pack ?_ (by decide) hfinite
  rw [ofScientific_eq_round Nat.one_ne_zero (by omega)]
  generalize 1 <<< 53 * 10 ^ k = m at hpos
  have hm : m ≠ 0 := by
    rintro rfl
    exact absurd hpos (by decide)
  have hlow : 56 ≤ m.log2 := (Nat.le_log2 hm).2 (hpos.trans' (by decide))
  exact largeFrom_roundWithAccuracy (by omega) (by decide) (by omega)

/-! ## Words -/

/-- The parts of a large float, read off its bits. -/
theorem unpack_of_largeFrom {b : BitVec 64} (h : LargeFrom sign low (unpack Format.binary64 b)) :
    @unpackExponent Format.binary64 b ≠ -1#11 ∧ @unpackExponent Format.binary64 b ≠ 0#11 ∧
      Sign.ofBitVec (@unpackSign Format.binary64 b) = sign ∧
      low + 1075 ≤ (@unpackExponent Format.binary64 b).toNat := by
  have hne := unpackExponent_of_isFinite h.isFinite
  simp only [UnpackedFloat.unpack, if_neg hne] at h
  by_cases h0 : @unpackExponent Format.binary64 b = 0#11
  · -- Without an exponent there are too few bits.
    rw [if_pos h0] at h
    split at h
    · exact h.elim
    · rename_i hm
      have hlt : (@unpackMantissa Format.binary64 b).toNat < 2 ^ 52 :=
        (@unpackMantissa Format.binary64 b).isLt
      have hlog : (@unpackMantissa Format.binary64 b).toNat.log2 < 52 :=
        (Nat.log2_lt fun hzero => hm (BitVec.eq_of_toNat_eq hzero)).2 hlt
      exact absurd h.2.1 hlog.ne
  · rw [if_neg h0] at h
    obtain ⟨hsign, -, hle⟩ := h
    have hle : low ≤ (@unpackExponent Format.binary64 b).toNat - (1023 + 52) := hle
    exact ⟨hne, h0, hsign, by omega⟩

/-- The bit of the sign, shifted. -/
theorem isNegative_iff (bits : UInt64) :
    (bits >>> 63 == 1) = true ↔
      Sign.ofBitVec (@unpackSign Format.binary64 bits.toBitVec) = .negative := by
  have hlt : bits.toNat / 2 ^ 63 < 2 := Nat.div_lt_of_lt_mul bits.toNat_lt
  have hsign : (@unpackSign Format.binary64 bits.toBitVec).toNat = bits.toNat / 2 ^ 63 % 2 ^ 1 := by
    simp only [unpackSign, BitVec.toNat_cast, BitVec.extractLsb_toNat, Nat.shiftRight_eq_div_pow]
    rfl
  have hshift : (bits >>> 63).toNat = bits.toNat / 2 ^ 63 := by
    rw [UInt64.toNat_shiftRight, Nat.shiftRight_eq_div_pow]
    rfl
  have hzero : @unpackSign Format.binary64 bits.toBitVec = 0#1 ↔ bits.toNat / 2 ^ 63 = 0 := by
    rw [← BitVec.toNat_inj, hsign]
    show _ % 2 = 0 ↔ _
    omega
  rw [beq_iff_eq, ← UInt64.toNat_inj, hshift, Sign.ofBitVec]
  show _ = 1 ↔ _
  generalize bits.toNat / 2 ^ 63 = d at hlt hzero
  split
  · rename_i h
    simp [hzero.1 h]
  · rename_i h
    have hne : d ≠ 0 := mt hzero.2 h
    simp only [iff_true]
    omega

/-- What is beyond a word is held at its end. -/
theorem truncate_of_largeFrom (h : LargeFrom sign 11 x.toModel.unpack) :
    (Binary.ofFloat x).truncate.toInt = if sign = .positive then 2 ^ 63 - 1 else -2 ^ 63 := by
  obtain ⟨hne, h0, hsign, hfield⟩ := unpack_of_largeFrom h
  have hnegative : (x.toBits >>> 63 == 1) = true ↔ sign = .negative := by
    rw [isNegative_iff, ← hsign]
    rfl
  have hexp := toNat_unpackExponent x.toBits
  have hne : ¬ ((x.toBits >>> 52) &&& 0x7FF).toNat = 0x7FF := fun heq =>
    hne (BitVec.eq_of_toNat_eq (hexp.trans heq))
  have h0 : ¬ ((x.toBits >>> 52) &&& 0x7FF).toNat = 0 := fun heq =>
    h0 (BitVec.eq_of_toNat_eq (hexp.trans heq))
  have hfield : 11 + 1075 ≤ (((x.toBits >>> 52) &&& 0x7FF).toNat : Int) := hexp ▸ hfield
  simp only [Binary.ofFloat, Binary.ofBits, if_neg hne, if_neg h0]
  generalize ((x.toBits >>> 52) &&& 0x7FF).toNat = field at hfield
  generalize (x.toBits &&& 0xFFFFFFFFFFFFF).toNat = fraction
  have hwhole : 2 ^ 63 ≤ Binary.wholePart (0x10000000000000 + fraction) (field - 1075) := by
    rw [Binary.wholePart, if_pos (by omega)]
    have hpow : 2 ^ 11 ≤ Nat.pow 2 ((field : Int) - 1075).toNat :=
      Nat.pow_le_pow_right (by decide) (by omega)
    calc 2 ^ 63 = 0x10000000000000 * 2 ^ 11 := by decide
      _ ≤ (0x10000000000000 + fraction) * Nat.pow 2 ((field : Int) - 1075).toNat :=
        Nat.mul_le_mul (Nat.le_add_right _ _) hpow
  simp only [Binary.truncate, toInt_ofIntClamp]
  generalize Binary.wholePart (0x10000000000000 + fraction) (field - 1075) = whole at hwhole
  unfold nearestWord
  cases sign with
  | positive =>
    have hpositive : ¬ (x.toBits >>> 63 == 1) = true := fun h => nomatch hnegative.1 h
    rw [if_neg hpositive, if_pos rfl]
    omega
  | negative =>
    rw [if_pos (hnegative.2 rfl), if_neg (by decide)]
    omega

end QueryCompiler.Decimal
