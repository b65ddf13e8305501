import QueryCompiler.Proofs.Decimal.IntegerPrefix

/-!
# Decimals in front of a text

A text is cast to a float by the decimal numeral that it begins with, after blanks and with a comma
for a point. A point counts only beside a digit, and the mark of an exponent only before one; the
scanner therefore looks further than it takes.

1. `ofPrefix?_of_stop`: sign, digits and fraction are taken as they are if what follows can belong
   to none of them.
2. `ofPrefix?_whole`, `ofPrefix?_point`: otherwise the digits that come last go on.
3. `ofPrefix?_append`: so no less than a numeral is taken where one stands, and one by itself is
   taken with its own parts, as `ofPrefix?_text` says.
4. `takesLongest_decimalText?`: what is taken is the longest decimal.

Main statement: `Scalar.toFloat?_text_eq_longest`.
-/

namespace QueryCompiler

open Text

namespace Decimal

variable {sign ds whole fraction exponent cs rest p : List Char}

/-! ## The form of a decimal -/

/-- Nothing, or a mark with an integer: `([eE][+-]?[0-9]+)?`. -/
inductive IsExponent : List Char → Prop
  | none : IsExponent []
  | some {mark : Char} {cs : List Char} (hm : mark = 'e' ∨ mark = 'E') (hi : IsInteger cs) :
      IsExponent (mark :: cs)

/-- A sign, digits that may have a point and digits behind them, and an exponent; or without digits
before the point, but then with digits behind it: `[+-]?([0-9]+(\.[0-9]*)?|\.[0-9]+)` and an
exponent. -/
inductive IsDecimal : List Char → Prop
  | whole {sign ds exponent : List Char} (hs : IsSign sign) (hd : IsDigits ds)
      (he : IsExponent exponent) : IsDecimal (sign ++ ds ++ exponent)
  | point {sign ds ds' exponent : List Char} (hs : IsSign sign) (hd : IsDigits ds)
      (hd' : ∀ c ∈ ds', c.isDigit = true) (he : IsExponent exponent) :
      IsDecimal (sign ++ (ds ++ '.' :: ds') ++ exponent)
  | bare {sign ds exponent : List Char} (hs : IsSign sign) (hd : IsDigits ds)
      (he : IsExponent exponent) : IsDecimal (sign ++ '.' :: ds ++ exponent)

/-- A fraction that may stand behind some digits, or behind none. -/
inductive IsFraction (whole : List Char) : List Char → Prop
  | none (h : whole ≠ []) : IsFraction whole []
  | point {ds : List Char} (hd : ∀ c ∈ ds, c.isDigit = true) (h : whole = [] → ds ≠ []) :
      IsFraction whole ('.' :: ds)

/-- The parts of a numeral are as its form wants them. -/
structure Numeral.IsProper (n : Numeral) : Prop where
  sign : IsSign n.sign
  whole : ∀ c ∈ n.whole, c.isDigit = true
  fraction : IsFraction n.whole n.fraction
  exponent : IsExponent n.exponent

theorem isDecimal_iff : IsDecimal p ↔ ∃ n : Numeral, n.IsProper ∧ n.text = p := by
  constructor
  · rintro (⟨hs, hd, he⟩ | ⟨hs, hd, hd', he⟩ | ⟨hs, hd, he⟩)
    · exact ⟨⟨_, _, [], _⟩, ⟨hs, hd.2, .none hd.1, he⟩, by simp [Numeral.text]⟩
    · exact ⟨⟨_, _, _, _⟩, ⟨hs, hd.2, .point hd' fun h => absurd h hd.1, he⟩,
        by simp [Numeral.text]⟩
    · have hnil : ∀ c ∈ ([] : List Char), c.isDigit = true := fun c hc => absurd hc List.not_mem_nil
      exact ⟨⟨_, [], _, _⟩, ⟨hs, hnil, .point hd.2 fun _ => hd.1, he⟩, by simp [Numeral.text]⟩
  · rintro ⟨⟨sign, whole, fraction, exponent⟩, ⟨hs, hw, hf, he⟩, rfl⟩
    cases hf with
    | none h =>
      rw [Numeral.text, List.append_nil]
      exact .whole hs ⟨h, hw⟩ he
    | point hd h =>
      rw [Numeral.text, List.append_assoc sign]
      by_cases hnil : whole = []
      · subst hnil
        exact .bare hs ⟨h rfl, hd⟩ he
      · exact .point hs ⟨hnil, hw⟩ hd he

/-! ## Whole digits and fraction -/

/-- What can be neither a further digit nor a point. -/
def Stops (cs : List Char) : Prop := ∀ c ∈ cs.head?, c.isDigit = false ∧ c ≠ '.'

theorem afterDigits_append (h : ∀ c ∈ ds, c.isDigit = true) (rest : List Char) :
    afterDigits (ds ++ rest) = afterDigits rest :=
  List.dropWhile_append_of_pos h

theorem afterDigits_of_head? (h : ∀ c ∈ cs.head?, c.isDigit = false) : afterDigits cs = cs := by
  cases cs with
  | nil => rfl
  | cons c cs => exact List.dropWhile_cons_of_neg (Bool.eq_false_iff.1 (h c rfl))

theorem stops_of_mark {mark : Char} (hm : mark = 'e' ∨ mark = 'E') (cs : List Char) :
    Stops (mark :: cs) := by
  intro c hc
  cases hc
  rcases hm with rfl | rfl <;> decide

theorem IsExponent.stops (he : IsExponent exponent) : Stops exponent := by
  cases he with
  | none => exact nofun
  | some hm _ => exact stops_of_mark hm _

theorem IsFraction.head?_ne (hw : ∀ c ∈ whole, c.isDigit = true) (hf : IsFraction whole fraction)
    {c : Char} (hc : c.isDigit = false) (hpoint : c ≠ '.') (rest : List Char) :
    (whole ++ (fraction ++ rest)).head? ≠ some c := by
  by_cases hnil : whole = []
  · subst hnil
    cases hf with
    | none h => exact absurd rfl h
    | point hd _ =>
      intro h
      cases h
      exact hpoint rfl
  · exact head?_ne_of_isDigits ⟨hnil, hw⟩ hc _

namespace Numeral

theorem fractionOf_of_stop (h : Stops cs) (whole : List Char) : fractionOf whole cs = [] := by
  unfold fractionOf
  split
  · exact absurd rfl (h '.' rfl).2
  · rfl

theorem fractionOf_point (hd : ∀ c ∈ ds, c.isDigit = true) (h : whole = [] → ds ≠ [])
    (rest : List Char) : fractionOf whole ('.' :: (ds ++ rest)) = '.' :: (ds ++ digitsOf rest) := by
  rw [fractionOf, digitsOf_append hd]
  refine if_neg fun hnil => ?_
  exact List.append_ne_nil_of_left_ne_nil (h hnil.1) _ hnil.2

theorem fractionOf_cases (whole cs : List Char) :
    fractionOf whole cs = [] ∨ ∃ ds, fractionOf whole cs = '.' :: ds ∧
      (∀ c ∈ ds, c.isDigit = true) ∧ (whole = [] → ds ≠ []) := by
  unfold fractionOf
  split
  · split
    · exact .inl rfl
    · rename_i hne
      exact .inr ⟨_, rfl, fun c hc => isDigit_of_mem_digitsOf hc, fun hw hds => hne ⟨hw, hds⟩⟩
  · exact .inl rfl

theorem isFraction_fractionOf (h : ¬ (whole = [] ∧ fractionOf whole cs = [])) :
    IsFraction whole (fractionOf whole cs) := by
  rcases fractionOf_cases whole cs with hnil | ⟨ds, hpoint, hd, hne⟩
  · rw [hnil]
    exact .none fun hw => h ⟨hw, hnil⟩
  · rw [hpoint]
    exact .point hd hne

/-! ## Exponents -/

/-- Behind its mark an exponent is an integer. -/
theorem exponentOf_cons {mark : Char} (hm : mark = 'e' ∨ mark = 'E') (cs : List Char) :
    exponentOf (mark :: cs) = ((integerText? cs).map (mark :: ·)).getD [] := by
  simp only [exponentOf, integerText?]
  by_cases hnil : digitsOf (cs.drop (signOf cs).length) = []
  · rw [if_neg fun h => h.2 hnil, if_pos hnil]
    rfl
  · rw [if_pos ⟨hm, hnil⟩, if_neg hnil]
    rfl

theorem exponentOf_append {mark : Char} (hm : mark = 'e' ∨ mark = 'E') (hs : IsSign sign)
    (hd : IsDigits ds) (rest : List Char) :
    exponentOf (mark :: (sign ++ ds ++ rest)) = mark :: (sign ++ ds) ++ digitsOf rest := by
  rw [exponentOf_cons hm, integerText?_append hs hd]
  rfl

theorem exponentOf_isExponent (he : IsExponent exponent) : exponentOf exponent = exponent := by
  cases he with
  | none => rfl
  | some hm hi =>
    obtain ⟨hs, hd⟩ := hi
    have hself := exponentOf_append hm hs hd []
    rw [List.append_nil] at hself
    exact hself.trans (List.append_nil _)

theorem isExponent_exponentOf (cs : List Char) : IsExponent (exponentOf cs) := by
  cases cs with
  | nil => exact .none
  | cons c cs =>
    rw [exponentOf]
    split
    · rename_i h
      exact .some h.1 (.intro (isSign_signOf cs) ⟨h.2, fun c hc => isDigit_of_mem_digitsOf hc⟩)
    · exact .none

/-! ## Numerals -/

theorem isProper_of_ofPrefix? {n : Numeral} (h : ofPrefix? cs = some n) : n.IsProper := by
  simp only [ofPrefix?] at h
  split at h
  · cases h
  · rename_i hne
    cases h
    exact ⟨isSign_signOf cs, fun c hc => isDigit_of_mem_digitsOf hc, isFraction_fractionOf hne,
      isExponent_exponentOf _⟩

theorem ofPrefix?_sign (hs : IsSign sign) (h : cs.head? ≠ some '+' ∧ cs.head? ≠ some '-') :
    ofPrefix? (sign ++ cs) =
      if digitsOf cs = [] ∧ fractionOf (digitsOf cs) (afterDigits cs) = [] then none
      else some ⟨sign, digitsOf cs, fractionOf (digitsOf cs) (afterDigits cs),
        exponentOf ((afterDigits cs).drop (fractionOf (digitsOf cs) (afterDigits cs)).length)⟩ := by
  rw [ofPrefix?, signOf_append hs h, List.drop_left]

/-- Behind a point the digits go on as far as they can. -/
theorem ofPrefix?_point (hs : IsSign sign) (hw : ∀ c ∈ whole, c.isDigit = true)
    (hd : ∀ c ∈ ds, c.isDigit = true) (h : whole = [] → ds ≠ []) (rest : List Char) :
    ofPrefix? (sign ++ (whole ++ '.' :: (ds ++ rest)))
      = some ⟨sign, whole, '.' :: (ds ++ digitsOf rest), exponentOf (afterDigits rest)⟩ := by
  have hne {c : Char} (hc : c.isDigit = false) (hpoint : c ≠ '.') :
      (whole ++ '.' :: (ds ++ rest)).head? ≠ some c :=
    (IsFraction.point hd h).head?_ne hw hc hpoint rest
  have hwhole : digitsOf (whole ++ '.' :: (ds ++ rest)) = whole :=
    (digitsOf_append hw _).trans (List.append_nil whole)
  have hafter : afterDigits (whole ++ '.' :: (ds ++ rest)) = '.' :: (ds ++ rest) :=
    afterDigits_append hw _
  have htail : ('.' :: (ds ++ rest)).drop ('.' :: (ds ++ digitsOf rest)).length
      = afterDigits rest := by
    have hsplit : ds ++ rest = ds ++ digitsOf rest ++ afterDigits rest := by
      rw [List.append_assoc, digits_split]
    rw [List.length_cons, List.drop_succ_cons, hsplit, List.drop_left]
  rw [ofPrefix?_sign hs ⟨hne rfl (by decide), hne rfl (by decide)⟩, hwhole, hafter,
    fractionOf_point hd h, htail]
  exact if_neg fun hnil => List.cons_ne_nil _ _ hnil.2

/-- Without a point the whole digits go on as far as they can. -/
theorem ofPrefix?_whole (hs : IsSign sign) (hd : IsDigits whole) (rest : List Char) :
    ofPrefix? (sign ++ (whole ++ rest)) =
      some ⟨sign, whole ++ digitsOf rest, fractionOf (whole ++ digitsOf rest) (afterDigits rest),
        exponentOf ((afterDigits rest).drop
          (fractionOf (whole ++ digitsOf rest) (afterDigits rest)).length)⟩ := by
  rw [ofPrefix?_sign hs ⟨head?_ne_of_isDigits hd rfl rest, head?_ne_of_isDigits hd rfl rest⟩,
    digitsOf_append hd.2, afterDigits_append hd.2]
  exact if_neg fun hnil => List.append_ne_nil_of_left_ne_nil hd.1 _ hnil.1

/-- The parts are taken as they are if neither a digit nor a point follows. -/
theorem ofPrefix?_of_stop (hs : IsSign sign) (hw : ∀ c ∈ whole, c.isDigit = true)
    (hf : IsFraction whole fraction) (hstop : Stops cs) :
    ofPrefix? (sign ++ (whole ++ (fraction ++ cs)))
      = some ⟨sign, whole, fraction, exponentOf cs⟩ := by
  have hstop' : ∀ c ∈ cs.head?, c.isDigit = false := fun c hc => (hstop c hc).1
  cases hf with
  | none h =>
    rw [List.nil_append, ofPrefix?_whole hs ⟨h, hw⟩, digitsOf_of_head? hstop',
      afterDigits_of_head? hstop', List.append_nil, fractionOf_of_stop hstop]
    rfl
  | point hd h =>
    rw [List.cons_append, ofPrefix?_point hs hw hd h, digitsOf_of_head? hstop',
      afterDigits_of_head? hstop', List.append_nil]

/-- A numeral by itself is taken as it is. -/
theorem ofPrefix?_text {n : Numeral} (hn : n.IsProper) : ofPrefix? n.text = some n := by
  have h := ofPrefix?_of_stop hn.sign hn.whole hn.fraction hn.exponent.stops
  rw [exponentOf_isExponent hn.exponent] at h
  rw [← h, text, List.append_assoc, List.append_assoc]

/-- In front of another text no less than a numeral is taken. -/
theorem ofPrefix?_append {n : Numeral} (hn : n.IsProper) (rest : List Char) :
    ∃ n', ofPrefix? (n.text ++ rest) = some n' ∧ n.text <+: n'.text := by
  obtain ⟨sign, whole, fraction, exponent⟩ := n
  obtain ⟨hs, hw, hf, he⟩ := hn
  dsimp only at hs hw hf he
  have htext : text ⟨sign, whole, fraction, exponent⟩ ++ rest
      = sign ++ (whole ++ (fraction ++ (exponent ++ rest))) := by
    simp only [text, List.append_assoc]
  rw [htext]
  cases he with
  | some hm hi =>
    -- The mark is neither a digit nor a point, so all in front of it is taken as it is.
    obtain ⟨hs', hd'⟩ := hi
    rw [List.cons_append]
    refine ⟨_, ofPrefix?_of_stop hs hw hf (stops_of_mark hm _), ?_⟩
    rw [exponentOf_append hm hs' hd']
    exact (List.prefix_append_right_inj _).2 (List.prefix_append _ _)
  | none =>
    rw [List.nil_append]
    cases hf with
    | none h =>
      rw [List.nil_append]
      refine ⟨_, ofPrefix?_whole hs ⟨h, hw⟩ rest, ?_⟩
      simp only [text, List.append_nil, List.append_assoc]
      exact (List.prefix_append_right_inj _).2 (List.prefix_append _ _)
    | point hd h =>
      refine ⟨_, ofPrefix?_point hs hw hd h rest, ?_⟩
      simp only [text, List.append_nil, List.append_assoc, List.cons_append]
      refine (List.prefix_append_right_inj _).2 ((List.prefix_append_right_inj _).2 ?_)
      exact List.cons_prefix_cons.2 ⟨rfl, List.prefix_append _ _⟩

end Numeral

/-! ## The longest decimal -/

/-- The decimal in front of a text as it is written, if there is one. -/
def decimalText? (cs : List Char) : Option (List Char) :=
  (Numeral.ofPrefix? cs).map Numeral.text

/-- The float that a whole text is the numeral of. -/
def float? (cs : List Char) : Option Float := (Numeral.ofText? cs).map Numeral.toFloat

theorem takesLongest_decimalText? : TakesLongest IsDecimal decimalText? where
  form h := by
    obtain ⟨n, hn, rfl⟩ := Option.map_eq_some_iff.1 h
    exact isDecimal_iff.2 ⟨n, Numeral.isProper_of_ofPrefix? hn, rfl⟩
  front h := by
    obtain ⟨n, hn, rfl⟩ := Option.map_eq_some_iff.1 h
    exact Numeral.text_append_rest hn
  reaches h rest := by
    obtain ⟨n, hn, rfl⟩ := isDecimal_iff.1 h
    obtain ⟨n', hn', hlonger⟩ := Numeral.ofPrefix?_append hn rest
    exact ⟨n'.text, Option.map_eq_some_iff.2 ⟨n', hn', rfl⟩, hlonger⟩

theorem Numeral.ofText?_text {n : Numeral} (hn : n.IsProper) : ofText? n.text = some n := by
  rw [ofText?, ofPrefix?_text hn]
  exact Option.filter_some_pos (decide_eq_true rfl)

/-- A whole text is a numeral exactly where it is a decimal. -/
theorem isSome_float?_iff : (float? p).isSome ↔ IsDecimal p := by
  rw [float?, Option.isSome_map]
  constructor
  · intro h
    obtain ⟨n, hn⟩ := Option.isSome_iff_exists.1 h
    obtain ⟨htaken, htext⟩ := Option.filter_eq_some_iff.1 hn
    exact isDecimal_iff.2 ⟨n, Numeral.isProper_of_ofPrefix? htaken, of_decide_eq_true htext⟩
  · intro h
    obtain ⟨n, hn, rfl⟩ := isDecimal_iff.1 h
    rw [Numeral.ofText?_text hn]
    rfl

/-- The numeral in front of a text has the float of what is taken, read again by itself. -/
theorem map_toFloat_ofPrefix? (cs : List Char) :
    (Numeral.ofPrefix? cs).map Numeral.toFloat = (decimalText? cs).bind float? := by
  rw [decimalText?]
  cases h : Numeral.ofPrefix? cs with
  | none => rfl
  | some n =>
    rw [Option.map_some, Option.map_some, Option.bind_some, float?,
      Numeral.ofText?_text (Numeral.isProper_of_ofPrefix? h), Option.map_some]

end Decimal

/-! ## Casts -/

open Decimal

namespace Scalar

theorem toFloat?_text_eq (s : String) :
    (text s).toFloat? = some (((decimalText?
      (dropBlank (s.toList.map fun c => if c = ',' then '.' else c))).bind float?).getD 0.0) := by
  have hbody : (trimStart (withPoints s)).toList
      = dropBlank (s.toList.map fun c => if c = ',' then '.' else c) := by
    rw [← toList_withPoints]
    exact String.toList_ofList
  rw [toFloat?, leadingFloat, hbody, map_toFloat_ofPrefix?]

/-- With points for commas and without its leading blanks a text is cast to the float of the
longest decimal that it begins with. What is handed to the parser of floats is that decimal; it is
handed nothing exactly where there is none, and the cast is zero then. No parser that knows the
decimals refuses what it is handed, and the cast has what it reads. -/
theorem toFloat?_text_eq_longest (s : String) :
    let body := dropBlank (s.toList.map fun c => if c = ',' then '.' else c)
    (∀ p, decimalText? body = some p ↔ IsLongest IsDecimal body p) ∧
      (decimalText? body = none ↔ ∀ p, IsDecimal p → ¬ p <+: body) ∧
      (decimalText? body = none → (text s).toFloat? = some 0.0) ∧
      (∀ p, decimalText? body = some p → ∃ x, float? p = some x ∧ (text s).toFloat? = some x) ∧
      ∀ parse : List Char → Option Float, (∀ p, IsDecimal p → (parse p).isSome) →
        ∀ p, decimalText? body = some p → (parse p).isSome := by
  intro body
  refine ⟨fun p => takesLongest_decimalText?.eq_some_iff, takesLongest_decimalText?.eq_none_iff,
    fun hnone => ?_, fun p hp => ?_, fun parse hparse p hp =>
      hparse p (takesLongest_decimalText?.form hp)⟩
  · rw [toFloat?_text_eq, hnone]
    rfl
  · obtain ⟨x, hx⟩ :=
      Option.isSome_iff_exists.1 (isSome_float?_iff.2 (takesLongest_decimalText?.form hp))
    refine ⟨x, hx, ?_⟩
    rw [toFloat?_text_eq, hp, Option.bind_some, hx]
    rfl

/-- An exponent without digits, a second comma, a point without any digit, a point at the end. -/
theorem toFloat?_text_partial :
    IsLongest IsDecimal "1.5e+x".toList "1.5".toList ∧
      (∃ x, float? "1.5".toList = some x ∧ (text "\u3000\t1,5e+x").toFloat? = some x) ∧
      IsLongest IsDecimal "1.2.3".toList "1.2".toList ∧
      (∀ p, IsDecimal p → ¬ p <+: "+.e5".toList) ∧ (text " +,e5").toFloat? = some 0.0 ∧
      (float? "-7.".toList).isSome := by
  obtain ⟨hlongest, -, -, hread, -⟩ := toFloat?_text_eq_longest "\u3000\t1,5e+x"
  obtain ⟨hsecond, -⟩ := toFloat?_text_eq_longest "1,2,3"
  obtain ⟨-, hnone, hzero, -⟩ := toFloat?_text_eq_longest " +,e5"
  obtain ⟨-, -, -, -, hparse⟩ := toFloat?_text_eq_longest "-7,"
  exact ⟨(hlongest _).1 rfl, hread _ rfl, (hsecond _).1 rfl,
    hnone.1 rfl, hzero rfl,
    hparse float? (fun _ => isSome_float?_iff.2) _ rfl⟩

end Scalar

end QueryCompiler
