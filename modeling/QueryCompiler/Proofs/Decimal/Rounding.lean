import Mathlib

/-!
# Rounding and packing

A float is computed in unpacked form, as a mantissa and an exponent, rounded to 53 bits and packed
into a word. `ExponentUpTo` bounds the exponent of what is packed, `SizeUpTo` and `SizeFrom` bound
the value itself by powers of two.

1. `exponentUpTo_roundWithAccuracy`: rounding raises the exponent by one at most, once the mantissa
   fits; `normalIn_roundWithAccuracy` says what becomes of a mantissa with bits enough.
2. `exponentUpTo_mul` and `exponentUpTo_div`: so products and quotients have bounds.
3. `sizeUpTo_unpack_pack` and `sizeFrom_unpack_pack`: packing keeps the bounds up to the largest
   exponent, which is 971, and what is beyond becomes infinite (`isInf_unpack_pack`).

Main statements: `sizeUpTo_unpack_pack` and `isInf_unpack_pack`.
-/

namespace QueryCompiler.Decimal

open Float.Model Float.Model.UnpackedFloat

/-- Zero, or a finite value with an exponent up to a bound. -/
def ExponentUpTo (bound : Int) : UnpackedFloat → Prop
  | .zero _ => True
  | .finite _ _ exponent _ => exponent ≤ bound
  | _ => False

/-- Zero, or a finite value below `2 ^ bound`. -/
def SizeUpTo (bound : Int) : UnpackedFloat → Prop
  | .zero _ => True
  | .finite _ mantissa exponent _ => totalExponent mantissa exponent ≤ bound
  | _ => False

/-- A finite value from `2 ^ (bound - 1)` on. -/
def SizeFrom (bound : Int) : UnpackedFloat → Prop
  | .finite _ mantissa exponent _ => bound ≤ totalExponent mantissa exponent
  | _ => False

/-- A finite value that uses every bit of the mantissa, with an exponent in some range. -/
def NormalIn (low high : Int) : UnpackedFloat → Prop
  | .finite _ mantissa exponent _ => mantissa.log2 = 52 ∧ low ≤ exponent ∧ exponent ≤ high
  | _ => False

instance (bound : Int) (f : UnpackedFloat) : Decidable (SizeUpTo bound f) :=
  match f with
  | .zero _ => .isTrue trivial
  | .finite _ m e _ => inferInstanceAs (Decidable (totalExponent m e ≤ bound))
  | .infinity _ | .notANumber => .isFalse id

instance (bound : Int) (f : UnpackedFloat) : Decidable (SizeFrom bound f) :=
  match f with
  | .finite _ m e _ => inferInstanceAs (Decidable (bound ≤ totalExponent m e))
  | .zero _ | .infinity _ | .notANumber => .isFalse id

variable {f t : UnpackedFloat} {sign : UnpackedFloat.Sign} {m : Nat} {e bound bound' : Int}
  {a : Accuracy}

theorem SizeUpTo.mono (h : SizeUpTo bound f) (hb : bound ≤ bound') : SizeUpTo bound' f := by
  cases f with
  | zero => trivial
  | finite => exact Int.le_trans h hb
  | _ => exact h

theorem SizeFrom.mono (h : SizeFrom bound f) (hb : bound' ≤ bound) : SizeFrom bound' f := by
  cases f with
  | finite => exact Int.le_trans hb h
  | _ => exact h

theorem ExponentUpTo.isFinite (h : ExponentUpTo bound f) : f.isFinite = true := by
  cases f with
  | zero | finite => rfl
  | _ => exact h.elim

theorem SizeUpTo.isFinite (h : SizeUpTo bound f) : f.isFinite = true := by
  cases f with
  | zero | finite => rfl
  | _ => exact h.elim

theorem SizeFrom.isFinite (h : SizeFrom bound f) : f.isFinite = true := by
  cases f with
  | finite => rfl
  | _ => exact h.elim

/-! ## Bits of a number -/

theorem log2_le_of_le {n k : Nat} (h : n ≤ 2 ^ k) : n.log2 ≤ k := by
  by_cases hn : n = 0
  · subst hn
    exact Nat.zero_le _
  · exact Nat.le_of_lt_succ ((Nat.log2_lt hn).2 (h.trans_lt (Nat.pow_lt_pow_succ (by decide))))

theorem log2_shiftLeft_le (m s : Nat) : (m <<< s).log2 ≤ m.log2 + s := by
  rw [Nat.shiftLeft_eq]
  by_cases hm : m = 0
  · subst hm
    rw [Nat.zero_mul]
    exact Nat.le_add_right _ _
  · have hpos : m * 2 ^ s ≠ 0 := (Nat.mul_pos (Nat.pos_of_ne_zero hm) (Nat.two_pow_pos s)).ne'
    refine Nat.le_of_lt_succ ((Nat.log2_lt hpos).2 ?_)
    rw [Nat.succ_eq_add_one, Nat.add_right_comm, Nat.pow_add]
    exact Nat.mul_lt_mul_of_pos_right Nat.lt_log2_self (Nat.two_pow_pos s)

theorem log2_mul_le {m₁ m₂ : Nat} (h₁ : 0 < m₁) (h₂ : 0 < m₂) :
    (m₁ * m₂).log2 ≤ m₁.log2 + m₂.log2 + 1 := by
  have hlt : (m₁ * m₂).log2 < m₁.log2 + 1 + (m₂.log2 + 1) := by
    refine (Nat.log2_lt (Nat.mul_pos h₁ h₂).ne').2 ?_
    rw [Nat.pow_add]
    exact Nat.mul_lt_mul_of_lt_of_lt Nat.lt_log2_self Nat.lt_log2_self
  omega

theorem log2_div_le {m₁ m₂ s : Nat} (h₂ : m₂ ≠ 0) (h : m₁ <<< s / m₂ ≠ 0) :
    (m₁ <<< s / m₂).log2 + m₂.log2 ≤ m₁.log2 + s := by
  have hlow : 2 ^ ((m₁ <<< s / m₂).log2 + m₂.log2) ≤ m₁ * 2 ^ s := by
    rw [Nat.pow_add]
    refine (Nat.mul_le_mul (Nat.log2_self_le h) (Nat.log2_self_le h₂)).trans ?_
    rw [← Nat.shiftLeft_eq m₁]
    exact Nat.div_mul_le_self _ _
  have hhigh : m₁ * 2 ^ s < 2 ^ (m₁.log2 + 1 + s) := by
    rw [Nat.pow_add]
    exact Nat.mul_lt_mul_of_pos_right Nat.lt_log2_self (Nat.two_pow_pos s)
  have := (Nat.pow_lt_pow_iff_right (by decide)).1 (hlow.trans_lt hhigh)
  omega

/-! ## Rounding -/

theorem mantissa_shiftRight (em : ExtendedMantissa) (k : Nat) :
    (em >>> k).mantissa = em.mantissa / 2 ^ k := by
  show (k.repeat ExtendedMantissa.shiftRightOne em).mantissa = _
  induction k with
  | zero => exact (Nat.div_one _).symm
  | succ k ih =>
    show (k.repeat ExtendedMantissa.shiftRightOne em).mantissa / 2 = _
    rw [ih, Nat.div_div_eq_div_mul, Nat.pow_succ]

theorem roundedMantissa_bounds (em : ExtendedMantissa) :
    em.mantissa ≤ em.roundedMantissa ∧ em.roundedMantissa ≤ em.mantissa + 1 := by
  simp only [ExtendedMantissa.roundedMantissa]
  cases em.accuracy with
  | exact => exact ⟨Nat.le_refl _, Nat.le_succ _⟩
  | inexact o =>
    cases o with
    | lt => exact ⟨Nat.le_refl _, Nat.le_succ _⟩
    | eq =>
      have hbit : em.mantissa % 2 < 2 := Nat.mod_lt _ (by decide)
      simp only [Accuracy.roundToNearestEven]
      omega
    | gt => exact ⟨Nat.le_succ _, Nat.le_refl _⟩

/-- A shift brings the exponent up to the one that the format wants. -/
theorem shiftToTargetExponent_snd (m : Nat) (e : Int) (a : Accuracy) :
    (shiftToTargetExponent Format.binary64 m e a).2
      = max e (max (totalExponent m e - 53) (-1074)) := by
  show e + ((max (totalExponent m e - 53) (-1074) - e).toNat : Int) = _
  omega

theorem shiftToTargetExponent_fst (m : Nat) (e : Int) (a : Accuracy) :
    (shiftToTargetExponent Format.binary64 m e a).1.mantissa
      = m / 2 ^ (max (totalExponent m e - 53) (-1074) - e).toNat := by
  have hmantissa : (ExtendedMantissa.ofMantissaAndAccuracy m a).mantissa = m := by
    cases a with
    | exact => rfl
    | inexact o => cases o <;> rfl
  show (ExtendedMantissa.ofMantissaAndAccuracy m a >>>
    (max (totalExponent m e - 53) (-1074) - e).toNat).mantissa = _
  rw [mantissa_shiftRight, hmantissa]

/-- A shift leaves at most the bits of a mantissa. -/
theorem shiftToTargetExponent_fst_lt (m : Nat) (e : Int) (a : Accuracy) :
    (shiftToTargetExponent Format.binary64 m e a).1.mantissa < 2 ^ 53 := by
  rw [shiftToTargetExponent_fst, Nat.div_lt_iff_lt_mul (Nat.two_pow_pos _), ← Nat.pow_add]
  refine Nat.lt_of_lt_of_le Nat.lt_log2_self (Nat.pow_le_pow_right (by decide) ?_)
  unfold totalExponent
  omega

theorem roundedMantissa_shiftToTargetExponent_le (m : Nat) (e : Int) (a : Accuracy) :
    (shiftToTargetExponent Format.binary64 m e a).1.roundedMantissa ≤ 2 ^ 53 :=
  (roundedMantissa_bounds _).2.trans (shiftToTargetExponent_fst_lt m e a)

/-- Rounding raises an exponent by no more than it takes to fit the mantissa. -/
theorem exponentUpTo_roundWithAccuracy (hb : -1074 < bound) (he : e < bound)
    (htotal : totalExponent m e ≤ bound + 52) :
    ExponentUpTo bound (roundWithAccuracy Format.binary64 sign m e a) := by
  have hrounded := roundedMantissa_shiftToTargetExponent_le m e a
  simp only [roundWithAccuracy]
  split
  · trivial
  · simp only [ExponentUpTo, shiftToTargetExponent_snd]
    generalize (shiftToTargetExponent Format.binary64 m e a).1.roundedMantissa = rounded at *
    have hlog : rounded.log2 ≤ 53 := log2_le_of_le hrounded
    unfold totalExponent at *
    omega

theorem isFinite_roundWithAccuracy :
    (roundWithAccuracy Format.binary64 sign m e a).isFinite = true := by
  simp only [roundWithAccuracy]
  split <;> rfl

theorem exponentUpTo_round (hb : -1074 < bound) (he : e < bound)
    (htotal : totalExponent m e ≤ bound + 52) :
    ExponentUpTo bound (UnpackedFloat.round Format.binary64 sign m e) := by
  show ExponentUpTo bound
    (roundWithAccuracy _ _ (m <<< (e - _).toNat) (e - ((e - _).toNat : Int)) _)
  generalize (e - Format.binary64.targetExponent (totalExponent m e)).toNat = s
  have hlog := log2_shiftLeft_le m s
  refine exponentUpTo_roundWithAccuracy hb (by omega) ?_
  unfold totalExponent at *
  omega

/-- A mantissa that was rounded up to one bit more is halved, any other is left alone. -/
theorem shiftToTargetExponent_of_le (h : 2 ^ 52 ≤ m) (h' : m ≤ 2 ^ 53) (he : -1074 ≤ e) :
    (shiftToTargetExponent Format.binary64 m e a).1.mantissa.log2 = 52 ∧
      e ≤ (shiftToTargetExponent Format.binary64 m e a).2 ∧
        (shiftToTargetExponent Format.binary64 m e a).2 ≤ e + 1 := by
  rw [shiftToTargetExponent_fst, shiftToTargetExponent_snd]
  unfold totalExponent
  by_cases hm : m = 2 ^ 53
  · subst hm
    have hlog : (2 ^ 53).log2 = 53 := Nat.log2_two_pow
    have hs : (max (((2 ^ 53).log2 : Int) + 1 + e - 53) (-1074) - e).toNat = 1 := by omega
    rw [hs]
    refine ⟨by decide, ?_⟩
    omega
  · have hlog : m.log2 = 52 := by
      have hlow : 52 ≤ m.log2 := (Nat.le_log2 (by omega)).2 h
      have hhigh : m.log2 < 53 := (Nat.log2_lt (by omega)).2 (by omega)
      omega
    have hs : (max ((m.log2 : Int) + 1 + e - 53) (-1074) - e).toNat = 0 := by omega
    rw [hs, Nat.pow_zero, Nat.div_one]
    refine ⟨hlog, ?_⟩
    omega

/-- A mantissa with bits enough is rounded to all bits of the format. -/
theorem normalIn_roundWithAccuracy (hm : 52 ≤ m.log2) (he : -1074 ≤ m.log2 + e - 52) :
    NormalIn (m.log2 + e - 52) (m.log2 + e - 51)
      (roundWithAccuracy Format.binary64 sign m e a) := by
  have hm0 : m ≠ 0 := by
    rintro rfl
    exact absurd hm (by decide)
  have hlow : 2 ^ 52 ≤ (shiftToTargetExponent Format.binary64 m e a).1.mantissa := by
    have hs : (max (totalExponent m e - 53) (-1074) - e).toNat = m.log2 - 52 := by
      unfold totalExponent
      omega
    rw [shiftToTargetExponent_fst, hs, Nat.le_div_iff_mul_le (Nat.two_pow_pos _), ← Nat.pow_add,
      Nat.add_sub_cancel' hm]
    exact Nat.log2_self_le hm0
  have hexp : (shiftToTargetExponent Format.binary64 m e a).2 = m.log2 + e - 52 := by
    rw [shiftToTargetExponent_snd]
    unfold totalExponent
    omega
  have hge := hlow.trans (roundedMantissa_bounds _).1
  have hle := roundedMantissa_shiftToTargetExponent_le m e a
  simp only [roundWithAccuracy, hexp]
  generalize (shiftToTargetExponent Format.binary64 m e a).1.roundedMantissa = rounded at hge hle
  obtain ⟨hlog, hexp⟩ := shiftToTargetExponent_of_le (a := .exact) hge hle he
  split
  · rename_i hzero
    rw [hzero] at hlog
    exact absurd hlog (by decide)
  · exact ⟨hlog, hexp.1, by omega⟩

/-! ## Products and quotients -/

theorem exponentUpTo_mul (hb : -1074 < bound + bound') (hf : SizeUpTo bound f)
    (ht : SizeUpTo bound' t) :
    ExponentUpTo (bound + bound') (UnpackedFloat.mul Format.binary64 f t) := by
  cases f with
  | zero =>
    cases t with
    | zero | finite => trivial
    | _ => exact ht.elim
  | finite s₁ m₁ e₁ hm₁ =>
    cases t with
    | zero => trivial
    | finite s₂ m₂ e₂ hm₂ =>
      have hf : (m₁.log2 : Int) + 1 + e₁ ≤ bound := hf
      have ht : (m₂.log2 : Int) + 1 + e₂ ≤ bound' := ht
      have hlog := log2_mul_le hm₁ hm₂
      refine exponentUpTo_roundWithAccuracy hb (by omega) ?_
      unfold totalExponent
      omega
    | _ => exact ht.elim
  | _ => exact hf.elim

theorem isFinite_mul (hf : f.isFinite = true) (ht : t.isFinite = true) :
    (UnpackedFloat.mul Format.binary64 f t).isFinite = true := by
  cases f with
  | zero =>
    cases t with
    | zero | finite => rfl
    | _ => cases ht
  | finite =>
    cases t with
    | zero => rfl
    | finite => exact isFinite_roundWithAccuracy
    | _ => cases ht
  | _ => cases hf

/-- A quotient by a value that is at least one. -/
theorem exponentUpTo_div (hb : -1074 < bound) (hf : SizeUpTo (bound + 52) f) (ht : SizeFrom 1 t) :
    ExponentUpTo bound (UnpackedFloat.div Format.binary64 f t) := by
  cases t with
  | finite s₂ m₂ e₂ hm₂ =>
    have ht : 1 ≤ (m₂.log2 : Int) + 1 + e₂ := ht
    cases f with
    | zero => trivial
    | finite s₁ m₁ e₁ hm₁ =>
      have hf : (m₁.log2 : Int) + 1 + e₁ ≤ bound + 52 := hf
      have htarget : Format.binary64.targetExponent (totalExponent m₁ e₁ - totalExponent m₂ e₂)
          = max (totalExponent m₁ e₁ - totalExponent m₂ e₂ - 53) (-1074) := rfl
      simp only [UnpackedFloat.div, divCore, htarget]
      generalize he : min (e₁ - e₂)
        (max (totalExponent m₁ e₁ - totalExponent m₂ e₂ - 53) (-1074)) = e
      simp only [totalExponent] at he
      refine exponentUpTo_roundWithAccuracy hb (by omega) ?_
      unfold totalExponent
      by_cases hq : m₁ <<< (e₁ - e₂ - e).toNat / m₂ = 0
      · rw [hq]
        show ((0 : Nat) : Int) + 1 + e ≤ _
        omega
      · have hlog := log2_div_le hm₂.ne' hq
        omega
    | _ => exact hf.elim
  | _ => exact ht.elim

/-! ## Packing -/

/-- The parts of a packed float. A mantissa with bits to spare is subnormal. -/
theorem pack_eq_packComponents {hm : 0 < m} (he : e ≤ 971) :
    UnpackedFloat.pack Format.binary64 (.finite sign m e hm) =
      packComponents Format.binary64 sign
        (BitVec.ofNat 11 (if m.log2 = 52 then (e + 1075).toNat else 0)) (BitVec.ofNat 52 m) := by
  have hbias : Format.binary64.exponentBias = 1023 := rfl
  have hfield : (e + Format.binary64.exponentBias +
      Format.binary64.mantissaBitsWithoutImplicit).toNat = (e + 1075).toNat := by
    show (e + Format.binary64.exponentBias + (52 : Nat)).toNat = _
    omega
  have hwide : ¬ 2 ^ Format.binary64.exponentBits ≤ (e + 1075).toNat + 1 := by
    show ¬ 2048 ≤ (e + 1075).toNat + 1
    omega
  have hbits : m.log2 + 1 = Format.binary64.mantissaBits ↔ m.log2 = 52 := by
    show m.log2 + 1 = 53 ↔ _
    omega
  rw [UnpackedFloat.pack, hfield, if_neg hwide]
  by_cases hlog : m.log2 = 52
  · rw [if_pos (hbits.2 hlog), if_pos hlog]
  · rw [if_neg fun h => hlog (hbits.1 h), if_neg hlog]

theorem toNat_unpackExponent_pack {hm : 0 < m} (he : e ≤ 971) :
    (@unpackExponent Format.binary64 (UnpackedFloat.pack _ (.finite sign m e hm))).toNat
      = if m.log2 = 52 then (e + 1075).toNat else 0 := by
  rw [pack_eq_packComponents he, unpackExponent_packComponents, BitVec.toNat_ofNat]
  refine Nat.mod_eq_of_lt ?_
  show _ < 2048
  split <;> omega

theorem toNat_unpackExponent_pack_le (h : ExponentUpTo bound f) (hb : bound ≤ 971) :
    (@unpackExponent Format.binary64 (UnpackedFloat.pack _ f)).toNat ≤ (bound + 1075).toNat := by
  cases f with
  | zero sign =>
    rw [UnpackedFloat.pack, packedZero, unpackExponent_packComponents]
    exact Nat.zero_le _
  | finite sign m e hm =>
    have he : e ≤ bound := h
    rw [toNat_unpackExponent_pack (he.trans hb)]
    split <;> omega
  | _ => exact h.elim

theorem unpackExponent_ne_of_lt {b : BitVec 64}
    (h : (@unpackExponent Format.binary64 b).toNat < 2047) :
    @unpackExponent Format.binary64 b ≠ -1#11 := by
  intro heq
  rw [heq] at h
  exact absurd h (by decide)

theorem unpackExponent_pack (h : ExponentUpTo 971 f) :
    @unpackExponent Format.binary64 (UnpackedFloat.pack _ f) ≠ -1#11 :=
  unpackExponent_ne_of_lt (Nat.lt_of_le_of_lt (toNat_unpackExponent_pack_le h (Int.le_refl _))
    (by decide))

/-! ## Unpacking -/

section Unpack

variable {b : BitVec 64} (h : @unpackExponent Format.binary64 b ≠ -1#11)

theorem toNat_one_append (m : BitVec 52) : (1#1 ++ m).toNat = 2 ^ 52 + m.toNat := by
  rw [BitVec.toNat_append, Nat.shiftLeft_eq]
  show 1 * 2 ^ 52 ||| m.toNat = _
  rw [Nat.one_mul, Nat.or_comm, Nat.or_two_pow_eq_add_of_lt m.isLt, Nat.add_comm]

theorem log2_one_append (m : BitVec 52) : (1#1 ++ m).toNat.log2 = 52 := by
  have hm : m.toNat < 2 ^ 52 := m.isLt
  rw [toNat_one_append, Nat.log2_eq_iff (by omega)]
  omega

include h

theorem toNat_unpackExponent_lt : (@unpackExponent Format.binary64 b).toNat < 2047 := by
  have hlt : (@unpackExponent Format.binary64 b).toNat < 2048 :=
    (@unpackExponent Format.binary64 b).isLt
  have hne : (@unpackExponent Format.binary64 b).toNat ≠ 2047 :=
    fun heq => h (BitVec.eq_of_toNat_eq heq)
  exact Nat.lt_of_le_of_ne (Nat.le_of_lt_succ hlt) hne

theorem sizeUpTo_unpack :
    SizeUpTo ((@unpackExponent Format.binary64 b).toNat - 1022) (unpack Format.binary64 b) := by
  simp only [UnpackedFloat.unpack, if_neg h]
  split
  · split
    · trivial
    · rename_i hm
      have hmantissa : (@unpackMantissa Format.binary64 b).toNat < 2 ^ 52 :=
        (@unpackMantissa Format.binary64 b).isLt
      have hlog : (@unpackMantissa Format.binary64 b).toNat.log2 < 52 :=
        (Nat.log2_lt fun hzero => hm (BitVec.eq_of_toNat_eq hzero)).2 hmantissa
      show ((@unpackMantissa Format.binary64 b).toNat.log2 : Int) + 1 +
        ((@unpackExponent Format.binary64 b).toNat - (1023 + 52) + 1) ≤ _
      omega
  · have hlog : (1#1 ++ @unpackMantissa Format.binary64 b).toNat.log2 = 52 := log2_one_append _
    show ((1#1 ++ @unpackMantissa Format.binary64 b).toNat.log2 : Int) + 1 +
      ((@unpackExponent Format.binary64 b).toNat - (1023 + 52)) ≤ _
    omega

theorem sizeFrom_unpack (h0 : @unpackExponent Format.binary64 b ≠ 0#11) :
    SizeFrom ((@unpackExponent Format.binary64 b).toNat - 1022) (unpack Format.binary64 b) := by
  have hlog : (1#1 ++ @unpackMantissa Format.binary64 b).toNat.log2 = 52 := log2_one_append _
  simp only [UnpackedFloat.unpack, if_neg h, if_neg h0]
  show _ ≤ ((1#1 ++ @unpackMantissa Format.binary64 b).toNat.log2 : Int) + 1 +
      ((@unpackExponent Format.binary64 b).toNat - (1023 + 52))
  omega

theorem exponentUpTo_unpack : ExponentUpTo 971 (unpack Format.binary64 b) := by
  have hfield := toNat_unpackExponent_lt h
  simp only [UnpackedFloat.unpack, if_neg h]
  split
  · rename_i h0
    split
    · trivial
    · show ((@unpackExponent Format.binary64 b).toNat : Int) - (1023 + 52) + 1 ≤ 971
      rw [h0]
      decide
  · show ((@unpackExponent Format.binary64 b).toNat : Int) - (1023 + 52) ≤ 971
    omega

end Unpack

theorem unpackExponent_of_isFinite {b : BitVec 64}
    (h : (unpack Format.binary64 b).isFinite = true) :
    @unpackExponent Format.binary64 b ≠ -1#11 := by
  intro heq
  simp only [UnpackedFloat.unpack, if_pos heq] at h
  split at h <;> cases h

/-- A float is as large after packing as its exponent allows. -/
theorem sizeUpTo_unpack_pack (h : ExponentUpTo bound f) (hlow : -1074 < bound)
    (hb : bound ≤ 971) : SizeUpTo (bound + 53) (Float.Model.pack f).unpack := by
  have hfield := toNat_unpackExponent_pack_le h hb
  have hne : @unpackExponent Format.binary64 (UnpackedFloat.pack _ f) ≠ -1#11 :=
    unpackExponent_ne_of_lt (by omega)
  exact (sizeUpTo_unpack hne).mono (by omega)

theorem sizeFrom_unpack_pack {low high : Int} (h : NormalIn low high f) (hlow : -1074 < low)
    (hhigh : high ≤ 971) : SizeFrom (low + 53) (Float.Model.pack f).unpack := by
  cases f with
  | finite sign m e hm =>
    obtain ⟨hlog, hle, hge⟩ := h
    have hfield := @toNat_unpackExponent_pack sign m e hm (hge.trans hhigh)
    rw [if_pos hlog] at hfield
    have hne0 : @unpackExponent Format.binary64
        (UnpackedFloat.pack _ (.finite sign m e hm)) ≠ 0#11 := by
      intro heq
      rw [heq] at hfield
      have : 0 = (e + 1075).toNat := hfield
      omega
    refine (sizeFrom_unpack (unpackExponent_ne_of_lt ?_) hne0).mono ?_ <;> omega
  | _ => exact h.elim

theorem isInf_unpack_pack_of_lt {hm : 0 < m} (he : 971 < e) :
    (Float.Model.pack (.finite sign m e hm)).unpack.isInf = true := by
  have hwide : 2 ^ Format.binary64.exponentBits ≤
      (e + Format.binary64.exponentBias +
        Format.binary64.mantissaBitsWithoutImplicit).toNat + 1 := by
    have hbias : Format.binary64.exponentBias = 1023 := rfl
    show 2048 ≤ (e + Format.binary64.exponentBias + (52 : Nat)).toNat + 1
    omega
  show (unpack Format.binary64 (UnpackedFloat.pack Format.binary64 _)).isInf = true
  rw [UnpackedFloat.pack, if_pos hwide, packedInfinity, UnpackedFloat.unpack]
  simp only [unpackExponent_packComponents, unpackMantissa_packComponents]
  rfl

/-- What is too large to be packed becomes infinite, and nothing else is lost. -/
theorem isInf_unpack_pack (hf : f.isFinite = true)
    (h : (Float.Model.pack f).unpack.isFinite = false) :
    (Float.Model.pack f).unpack.isInf = true := by
  have hexp : ¬ ExponentUpTo 971 f := by
    intro hexp
    have hfinite : (Float.Model.pack f).unpack.isFinite = true :=
      (exponentUpTo_unpack (unpackExponent_pack hexp)).isFinite
    rw [h] at hfinite
    cases hfinite
  cases f with
  | zero sign => exact absurd trivial hexp
  | finite sign m e hm =>
    have he : ¬ e ≤ 971 := hexp
    exact isInf_unpack_pack_of_lt (by omega)
  | _ => cases hf

end QueryCompiler.Decimal
