import QueryCompiler.Decimal.Binary

/-!
# Numerals in texts

`ofPrefix?` takes the longest numeral off the front of a text: a sign, digits with an
optional point, and an exponent. `integerPrefix?` does the same for signed digits. Main
statements: `text_append_rest` (scanning loses nothing) and `digits_split`.
-/

namespace QueryCompiler.Decimal

/-- A decimal digit of ASCII. -/
def isDigit (c : Char) : Bool := '0' ≤ c && c ≤ '9'

/-- The number that a run of digits denotes. -/
def ofDigits (cs : List Char) : Nat := cs.foldl (fun n c => 10 * n + (c.toNat - '0'.toNat)) 0

/-- The digits in front. -/
def digitsOf (cs : List Char) : List Char := cs.takeWhile isDigit

/-- What follows the digits in front. -/
def afterDigits (cs : List Char) : List Char := cs.dropWhile isDigit

theorem digits_split (cs : List Char) : digitsOf cs ++ afterDigits cs = cs := by
  simp [digitsOf, afterDigits]

/-- The sign in front, if there is one. -/
def signOf : List Char → List Char
  | c :: _ => if c = '+' ∨ c = '-' then [c] else []
  | [] => []

theorem signOf_append_drop (cs : List Char) : signOf cs ++ cs.drop (signOf cs).length = cs := by
  cases cs with
  | nil => rfl
  | cons c cs => by_cases h : c = '+' ∨ c = '-' <;> simp [signOf, h]

/-! ## Integers -/

/-- The integer of a sign and digits. -/
def integer (sign digits : List Char) : Int :=
  if sign = ['-'] then -(ofDigits digits : Int) else ofDigits digits

/-- The integer that the longest run of digits in front denotes, after at most one sign. -/
def integerPrefix? (cs : List Char) : Option Int :=
  let sign := signOf cs
  match digitsOf (cs.drop sign.length) with
  | [] => none
  | ds => some (integer sign ds)

/-- The integer that a text of digits denotes, after at most one sign. -/
def integer? (cs : List Char) : Option Int :=
  let sign := signOf cs
  let ds := cs.drop sign.length
  if ds ≠ [] ∧ ds.all isDigit then some (integer sign ds) else none

/-! ## Decimals -/

/-- The parts of a decimal numeral as they are written. The fraction starts with the point and
the exponent with its mark. -/
structure Numeral where
  sign : List Char
  whole : List Char
  fraction : List Char
  exponent : List Char
deriving DecidableEq, Repr

namespace Numeral

/-- The numeral as it is written. -/
def text (n : Numeral) : List Char := n.sign ++ n.whole ++ n.fraction ++ n.exponent

/-- A point and digits in front; a lone point counts only after a digit. -/
def fractionOf (whole : List Char) : List Char → List Char
  | '.' :: cs => if whole = [] ∧ digitsOf cs = [] then [] else '.' :: digitsOf cs
  | _ => []

/-- An exponent in front: its mark, at most one sign, and at least one digit. -/
def exponentOf : List Char → List Char
  | c :: cs =>
    let sign := signOf cs
    let ds := digitsOf (cs.drop sign.length)
    if (c = 'e' ∨ c = 'E') ∧ ds ≠ [] then c :: sign ++ ds else []
  | [] => []

/-- The longest decimal numeral in front of a text. -/
def ofPrefix? (cs : List Char) : Option Numeral :=
  let sign := signOf cs
  let cs := cs.drop sign.length
  let whole := digitsOf cs
  let cs := afterDigits cs
  let fraction := fractionOf whole cs
  if whole = [] ∧ fraction = [] then none
  else some ⟨sign, whole, fraction, exponentOf (cs.drop fraction.length)⟩

/-- The numeral that a text is. -/
def ofText? (cs : List Char) : Option Numeral :=
  (ofPrefix? cs).filter fun n => n.text = cs

theorem digitsOf_isPrefix (cs : List Char) : digitsOf cs <+: cs :=
  ⟨afterDigits cs, digits_split cs⟩

theorem fractionOf_isPrefix (whole cs : List Char) : fractionOf whole cs <+: cs := by
  unfold fractionOf
  split
  · split
    · exact List.nil_prefix
    · exact (List.prefix_cons_inj _).2 (digitsOf_isPrefix _)
  · exact List.nil_prefix

theorem exponentOf_isPrefix (cs : List Char) : exponentOf cs <+: cs := by
  cases cs with
  | nil => exact List.nil_prefix
  | cons c cs =>
    simp only [exponentOf]
    split
    · obtain ⟨rest, h⟩ := digitsOf_isPrefix (cs.drop (signOf cs).length)
      refine ⟨rest, ?_⟩
      rw [List.append_assoc, h, List.cons_append, signOf_append_drop]
    · exact List.nil_prefix

/-- A numeral and what follows it make up the text again. -/
theorem text_append_rest {cs : List Char} {n : Numeral} (h : ofPrefix? cs = some n) :
    ∃ rest, n.text ++ rest = cs := by
  simp only [ofPrefix?] at h
  split at h
  · contradiction
  · generalize hr : cs.drop (signOf cs).length = body at h
    have hf := List.prefix_iff_eq_append.1 (fractionOf_isPrefix (digitsOf body) (afterDigits body))
    generalize (afterDigits body).drop (fractionOf (digitsOf body) (afterDigits body)).length = tail
      at h hf
    obtain ⟨rest, he⟩ := exponentOf_isPrefix tail
    cases h
    refine ⟨rest, ?_⟩
    simp only [text, List.append_assoc]
    rw [he, hf, digits_split, ← hr, signOf_append_drop]

/-! ## The float of a numeral -/

/-- The digits without the point. -/
def coefficient (n : Numeral) : Nat := ofDigits (n.whole ++ n.fraction.drop 1)

/-- The power of ten of the last digit. -/
def power (n : Numeral) : Int :=
  let cs := n.exponent.drop 1
  let sign := signOf cs
  integer sign (cs.drop sign.length) - (n.fraction.length - 1 : Nat)

/-- The float nearest to `coefficient · 10 ^ power`. Outside the range of floats the answer is an
infinity or zero whatever the digits, and no power is computed. -/
def magnitude (coefficient : Nat) (power : Int) : Float :=
  let leading := (coefficient.log2 + 1 : Int) * 30103 / 100000 + power
  if coefficient = 0 ∨ leading < -400 then 0.0
  else if leading > 400 then 1.0 / 0.0
  else Float.ofScientific coefficient (power < 0) power.natAbs

/-- The float nearest to the number that the numeral denotes. -/
def toFloat (n : Numeral) : Float :=
  let x := magnitude n.coefficient n.power
  if n.sign = ['-'] then -x else x

end Numeral

end QueryCompiler.Decimal
