import QueryCompiler.Proofs.Decimal.Large
import QueryCompiler.Proofs.Json.Range

/-!
# Integers of a text

A JSON text that is a sign and digits is read as the integer that it denotes if a word of 64 bits,
signed or not, holds it. Minus zero is a float, and so is every integer beyond: not the one nearest
to it perhaps, but one on the same side of all words.

1. `gather_cases`: either all digits are gathered, or the gathered ones leave no room for a further
   digit.
2. `largeFrom_of_magnitude?`: so the float of an integer beyond a word is large.
3. `readsInteger_ofInteger`: what a sign and digits are read as, case by case.
4. `exists_of_read?_of_isInteger`: the reader of texts comes to them.

Main statement: `readsInteger_of_read?`.
-/

namespace QueryCompiler.Json

open Decimal Text

/-! ## Floats beyond a word -/

theorem gather_cases (start : Nat) {ds : List Char} (h : ∀ c ∈ ds, c.isDigit = true) :
    gather start ds = (ds.foldl (fun n c => 10 * n + (c.toNat - '0'.toNat)) start, []) ∨
      2 ^ 60 ≤ (gather start ds).1 ∧ (gather start ds).2 ≠ [] := by
  induction ds generalizing start with
  | nil => exact .inl rfl
  | cons c ds ih =>
    obtain ⟨hc, hds⟩ := List.forall_mem_cons.1 h
    have hrange : 48 ≤ c.toNat ∧ c.toNat ≤ 57 := Char.isDigit_iff_toNat.1 hc
    have hzero : '0'.toNat = 48 := rfl
    have hsize : UInt64.size = 2 ^ 64 := rfl
    simp only [gather, List.foldl_cons]
    split
    · exact ih _ hds
    · refine .inr ⟨?_, List.cons_ne_nil _ _⟩
      show 2 ^ 60 ≤ start
      omega

/-- A product of a word and a power of ten is beyond the signed words if the word is, or if it is
large enough and ten goes into the power. -/
theorem largeFrom_of_scaled? {n : Nat} {power : Int} {x : Float} (hn : 2 ^ 60 ≤ n)
    (hlt : n < 2 ^ 64) (hpower : 0 < power ∨ power = 0 ∧ 2 ^ 63 ≤ n)
    (h : scaled? n power = some x) : LargeFrom .positive 11 x.toModel.unpack := by
  have hlarge := largeFrom_ofNat (by omega) hlt
  have hn0 : n ≠ 0 := by omega
  simp only [scaled?] at h
  rw [if_neg (by omega)] at h
  by_cases hle : power ≤ 308
  · rw [if_pos hle] at h
    split at h
    · cases h
    · rename_i hinf
      cases h
      have hten : LargeFrom .positive (if power.natAbs = 0 then -52 else -49)
          (tenTo power.natAbs).toModel.unpack := largeFrom_ofScientific (by omega)
      have hinf := Bool.eq_false_iff.2 hinf
      rcases hpower with hpos | ⟨rfl, hn63⟩
      · have hlog : 60 ≤ n.log2 := (Nat.le_log2 hn0).2 hn
        rw [if_neg (by omega)] at hten
        exact (largeFrom_float_mul (by omega) hlarge hten hinf).mono (by omega)
      · have hlog : 63 ≤ n.log2 := (Nat.le_log2 hn0).2 hn63
        have hten : LargeFrom .positive (-52) (tenTo 0).toModel.unpack := hten
        exact (largeFrom_float_mul (by omega) hlarge hten hinf).mono (by omega)
  · rw [if_neg hle, if_neg hn0] at h
    cases h

theorem largeFrom_of_magnitude? {ds : List Char} {x : Float} (hds : ∀ c ∈ ds, c.isDigit = true)
    (hn : 2 ^ 63 ≤ ofDigits ds) (h : magnitude? ds [] 0 = some x) :
    LargeFrom .positive 11 x.toModel.unpack := by
  have hlt : (gather 0 ds).1 < 2 ^ 64 := gather_lt (by decide)
  simp only [magnitude?, gather, List.length_nil] at h
  rcases gather_cases 0 hds with hall | ⟨hsome, hrest⟩
  · rw [hall] at h hlt
    exact largeFrom_of_scaled? (hn.trans' (by decide)) hlt (.inr ⟨rfl, hn⟩) h
  · have hlength : 0 < (gather 0 ds).2.length := List.length_pos_iff.2 hrest
    exact largeFrom_of_scaled? hsome hlt (.inl (by omega)) h

/-! ## Readings -/

/-- What a sign and digits can be read as. -/
inductive ReadsInteger (cs : List Char) : Json → Prop
  | word (h : nearestWord (valueOf cs) = valueOf cs) (h' : cs ≠ ['-', '0']) :
      ReadsInteger cs (int (valueOf cs))
  | unsigned (h : 2 ^ 63 ≤ valueOf cs) (h' : valueOf cs < 2 ^ 64) :
      ReadsInteger cs (int (valueOf cs))
  | minusZero (h : cs = ['-', '0']) : ReadsInteger cs (float (-0.0))
  | above {x : Float} (h : 2 ^ 63 ≤ valueOf cs) (hx : LargeFrom .positive 11 x.toModel.unpack) :
      ReadsInteger cs (float x)
  | below {x : Float} (h : valueOf cs < -2 ^ 63) (hx : LargeFrom .negative 11 x.toModel.unpack) :
      ReadsInteger cs (float x)

/-- The minus sign of an integer, if it has one. -/
def minus (negative : Bool) : List Char := if negative then ['-'] else []

theorem isSign_minus (negative : Bool) : IsSign (minus negative) := by
  cases negative with
  | false => exact .none
  | true => exact .minus

variable {negative : Bool} {ds : List Char}

theorem head?_ne_minus (hd : IsDigits ds) : ds.head? ≠ some '-' := by
  simpa using head?_ne_of_isDigits hd (c := '-') rfl []

theorem le_foldl_digits (start : Nat) (ds : List Char) :
    start ≤ ds.foldl (fun n c => 10 * n + (c.toNat - '0'.toNat)) start := by
  induction ds generalizing start with
  | nil => exact Nat.le_refl _
  | cons c ds ih =>
    refine Nat.le_trans ?_ (ih _)
    show start ≤ 10 * start + (c.toNat - '0'.toNat)
    omega

theorem head?_of_ofDigits_eq_zero (hd : IsDigits ds) (h : ofDigits ds = 0) :
    ds.head? = some '0' := by
  obtain ⟨c, cs, rfl⟩ := List.exists_cons_of_ne_nil hd.1
  have hrange : 48 ≤ c.toNat ∧ c.toNat ≤ 57 :=
    Char.isDigit_iff_toNat.1 (hd.2 c List.mem_cons_self)
  have hzero : '0'.toNat = 48 := rfl
  have hle : 10 * 0 + (c.toNat - '0'.toNat) ≤ ofDigits (c :: cs) := le_foldl_digits _ cs
  have hc : c = '0' := Char.toNat_inj.1 (by omega)
  rw [hc, List.head?_cons]

/-- The number of a sign and digits, unless it is beyond every float. -/
theorem readsInteger_ofInteger (hd : IsDigits ds) (hzero : ds.head? = some '0' → ds = ['0']) :
    ofInteger negative ds = unreadable ∨
      ReadsInteger (minus negative ++ ds) (ofInteger negative ds) := by
  have hvalue : valueOf (minus negative ++ ds) = integer (minus negative) ds :=
    valueOf_append (isSign_minus negative) hd
  have hsize : UInt64.size = 2 ^ 64 := rfl
  simp only [ofInteger]
  cases negative with
  | true =>
    have hvalue : valueOf (minus true ++ ds) = -(ofDigits ds : Int) := hvalue
    rw [if_pos rfl]
    by_cases h0 : ofDigits ds = 0
    · obtain rfl := hzero (head?_of_ofDigits_eq_zero hd h0)
      exact .inr (.minusZero rfl)
    by_cases hn : ofDigits ds ≤ 0x8000000000000000
    · rw [if_pos ⟨h0, hn⟩, ← hvalue]
      refine .inr (.word ?_ ?_)
      · unfold nearestWord
        omega
      · intro hminus
        obtain rfl : ds = ['0'] := (List.cons.inj hminus).2
        exact h0 rfl
    · rw [if_neg fun h => hn h.2]
      split
      · rename_i x hx
        have hlarge := largeFrom_of_magnitude? hd.2 (by omega) hx
        exact .inr (.below (by omega) (largeFrom_float_neg (by decide) hlarge))
      · exact .inl rfl
  | false =>
    have hvalue : valueOf (minus false ++ ds) = ofDigits ds := hvalue
    rw [if_neg Bool.false_ne_true]
    by_cases hn : ofDigits ds < UInt64.size
    · rw [if_pos hn, ← hvalue]
      by_cases hword : ofDigits ds < 2 ^ 63
      · refine .inr (.word ?_ ?_)
        · unfold nearestWord
          omega
        · intro hminus
          exact head?_ne_minus hd (congrArg List.head? hminus)
      · exact .inr (.unsigned (by omega) (by omega))
    · rw [if_neg hn]
      split
      · rename_i x hx
        exact .inr (.above (by omega) (largeFrom_of_magnitude? hd.2 (by omega) hx))
      · exact .inl rfl

/-! ## Reading -/

theorem wholeDigits?_of_isDigits (hd : IsDigits ds) :
    wholeDigits? ds = if ds.head? = some '0' ∧ ds ≠ ['0'] then none else some (ds, []) := by
  have hdigits : digitsOf ds = ds := List.takeWhile_eq_self_iff.2 hd.2
  have hafter : afterDigits ds = [] := List.dropWhile_eq_nil_iff.2 hd.2
  unfold wholeDigits?
  rw [hdigits, hafter]
  split
  · exact absurd rfl hd.1
  · rw [if_pos ⟨rfl, by simp⟩]
  · rename_i hne
    rw [if_neg]
    rintro ⟨hhead, htail⟩
    obtain ⟨cs, rfl⟩ := List.head?_eq_some_iff.1 hhead
    cases cs with
    | nil => exact htail rfl
    | cons c cs => exact hne c cs rfl

/-- A run of digits is a number if it has no useless zero in front. -/
theorem number?_of_isDigits (hd : IsDigits ds) :
    number? (minus negative ++ ds) =
      if ds.head? = some '0' ∧ ds ≠ ['0'] then none else some (ofInteger negative ds, []) := by
  have hne : ds.head? ≠ some '-' := head?_ne_minus hd
  have hsign : decide ((minus negative ++ ds).head? = some '-') = negative := by
    cases negative with
    | true => rfl
    | false => exact decide_eq_false hne
  have hbody : (if (minus negative ++ ds).head? = some '-' then (minus negative ++ ds).drop 1
      else minus negative ++ ds) = ds := by
    cases negative with
    | true => rfl
    | false => exact if_neg hne
  simp only [number?, hsign, hbody, wholeDigits?_of_isDigits hd]
  split <;> rfl

/-- A sign or a digit. -/
def StartsInteger (c : Char) : Prop := c = '+' ∨ c = '-' ∨ c.isDigit = true

theorem StartsInteger.ne {c d : Char} (hc : StartsInteger c)
    (hd : d ≠ '+' ∧ d ≠ '-' ∧ d.isDigit = false) : c ≠ d := by
  rintro rfl
  rcases hc with hc | hc | hc
  · exact hd.1 hc
  · exact hd.2.1 hc
  · rw [hd.2.2] at hc
    cases hc

theorem exists_cons_of_isInteger {cs : List Char} (h : IsInteger cs) :
    ∃ c tail, cs = c :: tail ∧ StartsInteger c := by
  obtain ⟨hs, hd⟩ := h
  cases hs with
  | plus => exact ⟨_, _, rfl, .inl rfl⟩
  | minus => exact ⟨_, _, rfl, .inr (.inl rfl)⟩
  | none =>
    obtain ⟨d, ds, rfl⟩ := List.exists_cons_of_ne_nil hd.1
    exact ⟨d, ds, rfl, .inr (.inr (hd.2 d List.mem_cons_self))⟩

theorem value?_of_startsInteger {fuel levels : Nat} {c : Char} {cs : List Char}
    (hc : StartsInteger c) : value? (fuel + 1) levels (c :: cs) = number? (c :: cs) := by
  unfold value?
  split
  case h_1 heq => cases heq
  case h_8 => rfl
  all_goals
    rename_i heq
    cases heq
    exact absurd rfl (hc.ne (by decide))

theorem skipGap_of_startsInteger {c : Char} {cs : List Char} (hc : StartsInteger c) :
    skipGap (c :: cs) = c :: cs := by
  refine List.dropWhile_cons_of_neg ?_
  simp [isGap, hc.ne (d := ' ') (by decide), hc.ne (d := '\t') (by decide),
    hc.ne (d := '\n') (by decide), hc.ne (d := '\r') (by decide)]

/-- A sign and digits that are read are a number: the sign is no plus, and there is no useless
zero. -/
theorem exists_of_read?_of_isInteger {s : String} {j : Json} (hs : IsInteger s.toList)
    (h : read? s = some j) :
    ∃ negative ds, IsDigits ds ∧ (ds.head? = some '0' → ds = ['0']) ∧
      s.toList = minus negative ++ ds ∧ j = ofInteger negative ds := by
  simp only [read?, Option.bind_eq_bind, Option.bind_eq_some_iff] at h
  obtain ⟨⟨j', rest⟩, hvalue, h⟩ := h
  have hnumber : number? s.toList = some (j', rest) := by
    obtain ⟨c, tail, hcons, hc⟩ := exists_cons_of_isInteger hs
    rw [hcons, skipGap_of_startsInteger hc, value?_of_startsInteger hc] at hvalue
    rwa [hcons]
  have hj : j' = j := by
    split at h
    · exact Option.some.inj h
    · cases h
  have hdigits (negative : Bool) {ds : List Char} (hd : IsDigits ds)
      (hn : number? (minus negative ++ ds) = some (j', rest)) :
      ∃ negative' ds', IsDigits ds' ∧ (ds'.head? = some '0' → ds' = ['0']) ∧
        minus negative ++ ds = minus negative' ++ ds' ∧ j = ofInteger negative' ds' := by
    rw [number?_of_isDigits hd] at hn
    split at hn
    · cases hn
    · rename_i hzero
      cases hn
      exact ⟨negative, ds, hd, fun h0 => by_contra fun hne => hzero ⟨h0, hne⟩, rfl, hj.symm⟩
  generalize s.toList = cs at hs hnumber
  obtain ⟨hsign, hd⟩ := hs
  cases hsign with
  | none => exact hdigits false hd hnumber
  | minus => exact hdigits true hd hnumber
  | plus => cases hnumber

/-- A sign and digits that are read as a JSON value. -/
theorem readsInteger_of_read? {s : String} {j : Json} (hs : IsInteger s.toList)
    (h : (read? s).bind canonical? = some j) : ReadsInteger s.toList j := by
  obtain ⟨j', hj', hj⟩ := Option.bind_eq_some_iff.1 h
  obtain ⟨negative, ds, hd, hzero, htext, rfl⟩ := exists_of_read?_of_isInteger hs hj'
  rw [htext]
  rcases @readsInteger_ofInteger negative ds hd hzero with hun | hreads
  · rw [hun] at hj
    cases hj
  · generalize ofInteger negative ds = j' at hj hreads
    have hvalue : canonical? j' = some j' := by
      cases hreads <;> rfl
    rw [hvalue] at hj
    cases hj
    exact hreads

end QueryCompiler.Json
