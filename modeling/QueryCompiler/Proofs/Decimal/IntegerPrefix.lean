import Mathlib.Data.List.Induction
import Mathlib.Data.Nat.Digits.Defs
import QueryCompiler.Proofs.Sql.LiteralText
import QueryCompiler.Proofs.Text.Longest

/-!
# Integers in front of a text

A text is cast to an integer by what it begins with: after blanks a sign and digits, as many as
there are. What they denote is counted without bound and then held within a word.

1. `signOf_append`, `digitsOf_append`: the scanners for signs and digits go on where they can.
2. `takesLongest_integerText?`: together they take the longest integer.
3. `integerPrefix?_eq_map`: its value is that of its digits by their places.
4. `valueOf_toString`: the numeral of an integer denotes it.

Main statement: `Literal.integer_of_text`.
-/

namespace QueryCompiler

open Text

namespace Decimal

/-! ## Signs and digits -/

/-- Nothing, a plus or a minus. -/
inductive IsSign : List Char → Prop
  | none : IsSign []
  | plus : IsSign ['+']
  | minus : IsSign ['-']

variable {sign ds cs rest : List Char}

theorem isSign_signOf (cs : List Char) : IsSign (signOf cs) := by
  unfold signOf
  split
  · split
    · rename_i h
      rcases h with rfl | rfl
      · exact .plus
      · exact .minus
    · exact .none
  · exact .none

/-- A sign in front is seen as far as it goes. -/
theorem signOf_append (hs : IsSign sign) (h : cs.head? ≠ some '+' ∧ cs.head? ≠ some '-') :
    signOf (sign ++ cs) = sign := by
  cases hs with
  | plus | minus => rfl
  | none =>
    cases cs with
    | nil => rfl
    | cons c cs =>
      simp only [List.head?_cons, ne_eq, Option.some.injEq] at h
      exact if_neg (not_or.2 h)

theorem digitsOf_append (h : ∀ c ∈ ds, c.isDigit = true) (rest : List Char) :
    digitsOf (ds ++ rest) = ds ++ digitsOf rest :=
  List.takeWhile_append_of_pos h

theorem digitsOf_of_head? (h : ∀ c ∈ cs.head?, c.isDigit = false) : digitsOf cs = [] := by
  cases cs with
  | nil => rfl
  | cons c cs => exact List.takeWhile_cons_of_neg (Bool.eq_false_iff.1 (h c rfl))

theorem isDigit_of_mem_digitsOf {c : Char} (h : c ∈ digitsOf cs) : c.isDigit = true :=
  List.all_eq_true.1 List.all_takeWhile c h

theorem head?_ne_of_isDigits {c : Char} (hd : IsDigits ds) (hc : c.isDigit = false)
    (rest : List Char) : (ds ++ rest).head? ≠ some c := by
  obtain ⟨d, ds, rfl⟩ := List.exists_cons_of_ne_nil hd.1
  intro h
  cases h
  rw [hd.2 c List.mem_cons_self] at hc
  cases hc

/-! ## The longest integer -/

/-- A sign and digits: `[+-]?[0-9]+`. -/
inductive IsInteger : List Char → Prop
  | intro {sign ds : List Char} (hs : IsSign sign) (hd : IsDigits ds) : IsInteger (sign ++ ds)

/-- The sign and the digits in front of a text, if there is any digit. -/
def integerText? (cs : List Char) : Option (List Char) :=
  let sign := signOf cs
  let ds := digitsOf (cs.drop sign.length)
  if ds = [] then none else some (sign ++ ds)

theorem integerText?_append (hs : IsSign sign) (hd : IsDigits ds) (rest : List Char) :
    integerText? (sign ++ ds ++ rest) = some (sign ++ ds ++ digitsOf rest) := by
  have hsign : signOf (sign ++ (ds ++ rest)) = sign :=
    signOf_append hs ⟨head?_ne_of_isDigits hd rfl rest, head?_ne_of_isDigits hd rfl rest⟩
  rw [List.append_assoc, integerText?, hsign, List.drop_left, digitsOf_append hd.2,
    List.append_assoc]
  exact if_neg (List.append_ne_nil_of_left_ne_nil hd.1 _)

theorem takesLongest_integerText? : TakesLongest IsInteger integerText? where
  form {cs p} h := by
    simp only [integerText?] at h
    split at h
    · cases h
    · rename_i hne
      cases h
      exact .intro (isSign_signOf cs) ⟨hne, fun c hc => isDigit_of_mem_digitsOf hc⟩
  front {cs p} h := by
    simp only [integerText?] at h
    split at h
    · cases h
    · cases h
      have htaken := (List.prefix_append_right_inj (signOf cs)).2
        (Numeral.digitsOf_isPrefix (cs.drop (signOf cs).length))
      rwa [signOf_append_drop] at htaken
  reaches {p} h rest := by
    obtain ⟨hs, hd⟩ := h
    exact ⟨_, integerText?_append hs hd rest, List.prefix_append _ _⟩

/-! ## Its value -/

/-- The number of a digit. -/
def digitValue (c : Char) : Nat := c.toNat - '0'.toNat

/-- The number that digits denote: the last one counts ones, the one before it tens. -/
def placeValue (ds : List Char) : Nat := Nat.ofDigits 10 (ds.reverse.map digitValue)

/-- The number that a sign and digits denote. -/
def valueOf : List Char → Int
  | '-' :: ds => -(placeValue ds : Int)
  | '+' :: ds => placeValue ds
  | ds => placeValue ds

theorem ofDigits_eq_placeValue (ds : List Char) : ofDigits ds = placeValue ds := by
  induction ds using List.reverseRecOn with
  | nil => rfl
  | append_singleton ds c ih =>
    have hlast : ofDigits (ds ++ [c]) = 10 * ofDigits ds + digitValue c := List.foldl_concat ..
    rw [hlast, ih, placeValue, placeValue, List.reverse_append, List.reverse_singleton,
      List.singleton_append, List.map_cons, Nat.ofDigits_cons, Nat.add_comm]

theorem valueOf_append (hs : IsSign sign) (hd : IsDigits ds) :
    valueOf (sign ++ ds) = integer sign ds := by
  unfold integer
  rw [ofDigits_eq_placeValue]
  cases hs with
  | plus | minus => rfl
  | none =>
    obtain ⟨d, ds, rfl⟩ := List.exists_cons_of_ne_nil hd.1
    have hne {c : Char} (hc : c.isDigit = false) : d ≠ c := fun h =>
      head?_ne_of_isDigits hd hc [] (by rw [h]; rfl)
    rw [List.nil_append, valueOf]
    · rfl
    · exact fun ds' h => hne rfl (List.cons.inj h).1
    · exact fun ds' h => hne rfl (List.cons.inj h).1

/-- The scanner gives the value of the text that it takes. -/
theorem integerPrefix?_eq_map (cs : List Char) :
    integerPrefix? cs = (integerText? cs).map valueOf := by
  simp only [integerPrefix?, integerText?]
  split
  · rename_i hnil
    rw [if_pos hnil]
    rfl
  · rename_i ds hne
    have hd : IsDigits (digitsOf (cs.drop (signOf cs).length)) :=
      ⟨hne, fun c hc => isDigit_of_mem_digitsOf hc⟩
    rw [if_neg hne, Option.map_some, valueOf_append (isSign_signOf cs) hd]

/-! ## Numerals of integers -/

/-- The numeral of an integer is a sign and digits that denote it. -/
theorem exists_toList_toString (n : Int) :
    ∃ sign ds, (toString n).toList = sign ++ ds ∧ IsSign sign ∧ IsDigits ds ∧
      integer sign ds = n := by
  have hvalue (k : Nat) : ofDigits (Nat.toDigits 10 k) = k := Nat.ofDigitChars_ten_toDigits
  rw [Int.toString_eq_repr, Int.repr_eq_if]
  by_cases h : 0 ≤ n
  · refine ⟨[], Nat.toDigits 10 n.toNat, ?_, .none, isDigits_toDigits _, ?_⟩
    · rw [if_pos h, Nat.toList_repr, List.nil_append]
    · rw [integer, if_neg (by decide), hvalue]
      omega
  · refine ⟨['-'], Nat.toDigits 10 (-n).toNat, ?_, .minus, isDigits_toDigits _, ?_⟩
    · rw [if_neg h, String.toList_append, Nat.toList_repr]
      rfl
    · rw [integer, if_pos rfl, hvalue]
      omega

theorem isInteger_toString (n : Int) : IsInteger (toString n).toList := by
  obtain ⟨sign, ds, hlist, hs, hd, -⟩ := exists_toList_toString n
  rw [hlist]
  exact .intro hs hd

theorem valueOf_toString (n : Int) : valueOf (toString n).toList = n := by
  obtain ⟨sign, ds, hlist, hs, hd, hn⟩ := exists_toList_toString n
  rw [hlist, valueOf_append hs hd, hn]

/-! ## Blanks and words -/

theorem isBlank_of_isDigit {c : Char} (h : c.isDigit = true) : isBlank c = false := by
  have hrange : 48 ≤ c.toNat ∧ c.toNat ≤ 57 := Char.isDigit_iff_toNat.1 h
  simp only [isBlank, inRanges, blankRanges, List.any_cons, List.any_nil, Bool.or_false,
    Bool.or_eq_false_iff, Bool.and_eq_false_iff, decide_eq_false_iff_not]
  omega

theorem isBlank_head?_of_isInteger (h : IsInteger cs) (rest : List Char) :
    ∀ c ∈ (cs ++ rest).head?, isBlank c = false := by
  obtain ⟨hs, hd⟩ := h
  intro c hc
  cases hs with
  | plus | minus =>
    cases hc
    rfl
  | none =>
    obtain ⟨d, ds, rfl⟩ := List.exists_cons_of_ne_nil hd.1
    cases hc
    exact isBlank_of_isDigit (hd.2 c List.mem_cons_self)

/-- The integer of 64 bits that is nearest. -/
def nearestWord (n : Int) : Int := max (-2 ^ 63) (min n (2 ^ 63 - 1))

theorem toInt_ofIntClamp (n : Int) : (Int64.ofIntClamp n).toInt = nearestWord n := by
  have hmin : Int64.minValue.toInt = -2 ^ 63 := rfl
  have hmax : Int64.maxValue.toInt = 2 ^ 63 - 1 := rfl
  unfold Int64.ofIntClamp nearestWord
  split
  · split
    · rw [Int64.toInt_ofIntLE]
      omega
    · omega
  · omega

theorem nearestWord_toInt (n : Int64) : nearestWord n.toInt = n.toInt := by
  have hlow := n.le_toInt
  have hhigh := n.toInt_lt
  unfold nearestWord
  omega

end Decimal

namespace Text

theorem dropBlank_append {blanks cs : List Char} (hb : ∀ c ∈ blanks, isBlank c = true)
    (h : ∀ c ∈ cs.head?, isBlank c = false) : dropBlank (blanks ++ cs) = cs := by
  rw [dropBlank, List.dropWhile_append_of_pos hb]
  cases cs with
  | nil => rfl
  | cons c cs => exact List.dropWhile_cons_of_neg (Bool.eq_false_iff.1 (h c rfl))

end Text

/-! ## Casts -/

open Decimal

/-- Behind blanks and in front of what is no digit an integer is the longest one. -/
theorem Decimal.isLongest_isInteger {blanks p rest : List Char}
    (hb : ∀ c ∈ blanks, isBlank c = true) (hp : IsInteger p)
    (hrest : ∀ c ∈ rest.head?, c.isDigit = false) :
    IsLongest IsInteger (dropBlank (blanks ++ p ++ rest)) p := by
  rw [List.append_assoc, dropBlank_append hb (isBlank_head?_of_isInteger hp rest)]
  refine takesLongest_integerText?.isLongest ?_
  obtain ⟨hs, hd⟩ := hp
  rw [integerText?_append hs hd, digitsOf_of_head? hrest, List.append_nil]

theorem Scalar.toInteger_text (s : String) :
    (text s).toInteger
      = Int64.ofIntClamp (((integerText? (dropBlank s.toList)).map valueOf).getD 0) := by
  have hbody : (trimStart s).toList = dropBlank s.toList := String.toList_ofList
  rw [← integerPrefix?_eq_map, ← hbody]
  exact leadingInteger_eq_ofIntClamp s

theorem Scalar.toInteger_text_of_front {s : String} {p : List Char}
    (h : IsLongest IsInteger (dropBlank s.toList) p) :
    (text s).toInteger.toInt = nearestWord (valueOf p) := by
  rw [toInteger_text, takesLongest_integerText?.eq_some_iff.2 h, toInt_ofIntClamp]
  rfl

namespace Literal

/-- A text is cast to what the longest integer behind its leading blanks denotes, or the nearest
word to that, and to zero if there is no such integer. For a field that holds neither texts nor
floats it is written as the numeral of that word, whatever follows the integer. The numeral of a
word is cast to the word. -/
theorem integer_of_text :
    (∀ s p, IsLongest IsInteger (dropBlank s.toList) p →
      (Scalar.text s).toInteger.toInt = nearestWord (valueOf p)) ∧
    (∀ s, (∀ p, ¬ IsLongest IsInteger (dropBlank s.toList) p) → (Scalar.text s).toInteger = 0) ∧
    (∀ type ∈ [DomainType.integer, .timestamp, .other],
      (∀ s, ∃ l, coerce type (.text s) = .ok l ∧
        l.text = toString (Scalar.text s).toInteger.toInt) ∧
      ∀ blanks p rest, (∀ c ∈ blanks, isBlank c = true) → IsInteger p →
        (∀ c ∈ rest.head?, c.isDigit = false) →
        ∃ l, coerce type (.text (String.ofList (blanks ++ p ++ rest))) = .ok l ∧
          l.text = toString (nearestWord (valueOf p))) ∧
    ∀ n : Int64, (Scalar.text (toString n.toInt)).toInteger = n := by
  have hcoerce : ∀ type ∈ [DomainType.integer, .timestamp, .other], ∀ s,
      coerce type (.text s) = .ok (integer (Scalar.text s).toInteger) := by
    simp [coerce]
  refine ⟨fun s p => Scalar.toInteger_text_of_front, fun s h => ?_, fun type ht => ⟨?_, ?_⟩,
    fun n => ?_⟩
  · have hnone : integerText? (dropBlank s.toList) = none :=
      Option.eq_none_iff_forall_ne_some.2 fun p hp => h p (takesLongest_integerText?.isLongest hp)
    rw [Scalar.toInteger_text, hnone]
    rfl
  · exact fun s => ⟨_, hcoerce type ht s, rfl⟩
  · intro blanks p rest hb hp hrest
    have hfront := isLongest_isInteger hb hp hrest
    rw [← String.toList_ofList (l := blanks ++ p ++ rest)] at hfront
    refine ⟨_, hcoerce type ht _, ?_⟩
    rw [text, Scalar.toInteger_text_of_front hfront]
  · have hfront := @isLongest_isInteger [] _ [] nofun (isInteger_toString n.toInt) nofun
    rw [List.nil_append, List.append_nil] at hfront
    have hvalue := Scalar.toInteger_text_of_front hfront
    rw [valueOf_toString, nearestWord_toInt] at hvalue
    exact Int64.toInt_inj.1 hvalue

/-- Blanks beyond ASCII, leading zeros and more digits than a word holds; a sign without digits;
a statement behind the integer. -/
theorem integer_of_text_hostile :
    let long := "\u3000\t-00099999999999999999999 OR 1=1"
    IsLongest IsInteger (dropBlank long.toList) "-00099999999999999999999".toList ∧
      (Scalar.text long).toInteger.toInt = -2 ^ 63 ∧
      (∀ p, ¬ IsLongest IsInteger (dropBlank "+-7".toList) p) ∧
      (Scalar.text "+-7").toInteger = 0 ∧
      IsInteger ['+', '0', '7'] ∧
      ∃ l, coerce .other (.text (String.ofList ([' '] ++ ['+', '0', '7'] ++ [';', '8']))) = .ok l ∧
        l.text = "7" := by
  intro long
  obtain ⟨hvalue, hzero, hwritten, -⟩ := integer_of_text
  have hlong : IsLongest IsInteger (dropBlank long.toList) "-00099999999999999999999".toList :=
    takesLongest_integerText?.isLongest (by unfold long; rfl)
  have hlone : ∀ p, ¬ IsLongest IsInteger (dropBlank "+-7".toList) p := fun p hp =>
    takesLongest_integerText?.eq_none_iff.1 rfl p hp.form hp.front
  have hdigits : IsDigits ['0', '7'] := ⟨List.cons_ne_nil _ _, by simp⟩
  have hseven : IsInteger (['+'] ++ ['0', '7']) := .intro .plus hdigits
  have hblank : ∀ c ∈ [' '], isBlank c = true := List.forall_mem_singleton.2 rfl
  have hend : ∀ c ∈ [';', '8'].head?, c.isDigit = false := by
    rintro c ⟨⟩
    rfl
  exact ⟨hlong, hvalue long _ hlong, hlone, hzero _ hlone, hseven,
    (hwritten .other (by simp)).2 [' '] _ [';', '8'] hblank hseven hend⟩

end Literal

end QueryCompiler
