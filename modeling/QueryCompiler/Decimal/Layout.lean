import QueryCompiler.Decimal.Shortest

/-!
# Float texts

A `Layout` says how a shortest decimal is written: `plain` always positionally, `scientific` with
an exponent outside a range. Main statement: `plain_text_zero` (zero keeps its sign).
-/

namespace QueryCompiler.Decimal

/-- The decisions of a float format. -/
structure Layout where
  /-- Which of two equally near shortest decimals is written. -/
  tie : Tie
  /-- The exponents of the leading digit that are written without an exponent; all if none. -/
  positional : Option (Int × Int)
  /-- What follows a whole number. -/
  wholeEnd : List Char

namespace Layout

/-- The digits of a number with its point, never an exponent. -/
def positionalText (l : Layout) (d : Decimal) : List Char :=
  if 0 ≤ d.exponent then
    d.digits ++ List.replicate d.exponent.toNat '0' ++ l.wholeEnd
  else
    let places := (-d.exponent).toNat
    let ds := List.replicate (places + 1 - d.digits.length) '0' ++ d.digits
    ds.take (ds.length - places) ++ '.' :: ds.drop (ds.length - places)

/-- One digit before the point and a signed exponent. -/
def exponentText (d : Decimal) : List Char :=
  let mark := if d.leading < 0 then ['e', '-'] else ['e', '+']
  let point := if d.digits.length ≤ 1 then [] else '.' :: d.digits.drop 1
  d.digits.take 1 ++ point ++ mark ++ Nat.toDigits 10 d.leading.natAbs

/-- The text of a decimal that is not zero. -/
def decimalText (l : Layout) (d : Decimal) : List Char :=
  match l.positional with
  | none => l.positionalText d
  | some (low, high) =>
    if low ≤ d.leading && d.leading ≤ high then l.positionalText d else exponentText d

/-- The text of `mantissa · 2 ^ exponent`. -/
def magnitudeText (l : Layout) (mantissa : Nat) (exponent : Int) : List Char :=
  if mantissa = 0 then '0' :: l.wholeEnd else l.decimalText (shortest l.tie mantissa exponent)

/-- A minus sign in front of what is negative. -/
def signed (negative : Bool) (cs : List Char) : List Char := if negative then '-' :: cs else cs

/-- The text of a float. -/
def text (l : Layout) (x : Float) : String :=
  String.ofList <| match Binary.ofFloat x with
  | .nan => ['N', 'a', 'N']
  | .infinite negative => signed negative ['i', 'n', 'f']
  | .finite negative mantissa exponent => signed negative (l.magnitudeText mantissa exponent)

end Layout

/-- Shortest digits, never an exponent, no point in a whole number; the upper of two equally near
decimals. -/
def plain : Layout := ⟨.upward, none, []⟩

/-- Shortest digits, an exponent below `10 ^ -5` and from `10 ^ 16` on, `.0` after a whole number;
the even one of two equally near decimals. -/
def scientific : Layout := ⟨.toEven, some (-5, 15), ['.', '0']⟩

theorem plain_text_zero : plain.text 0.0 = "0" ∧ plain.text (-0.0) = "-0" := by decide +kernel

example : scientific.text 0.0 = "0.0" ∧ scientific.text (-0.0) = "-0.0" := by decide +kernel

end QueryCompiler.Decimal
