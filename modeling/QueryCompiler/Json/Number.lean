import QueryCompiler.Json.Basic
import QueryCompiler.Decimal.Numeral

/-!
# JSON numbers

A number without point and exponent is an integer if it fits a word of 64 bits, signed or not.
Any other number is a float: its digits are gathered in an unsigned word as long as they fit, and
the word is scaled by a power of ten. Main statement: `ofInteger_of_natural` (every integer of a
word stays what it is, though minus zero is a float).
-/

namespace QueryCompiler.Json

open Decimal

/-- The digits that fit an unsigned word on top of `start`, and those left over. -/
def gather (start : Nat) : List Char → Nat × List Char
  | [] => (start, [])
  | c :: cs =>
    let next := 10 * start + (c.toNat - '0'.toNat)
    if next < UInt64.size then gather next cs else (start, c :: cs)

/-- A power of ten. -/
def tenTo (k : Nat) : Float := Float.ofScientific 1 false k

/-- Divides by `10 ^ k`, by at most `10 ^ 308` at a time; `rounds` bounds the number of times. -/
def scaleDown (x : Float) (k : Nat) : (rounds : Nat) → Float
  | 0 => x
  | rounds + 1 =>
    if k ≤ 308 then x / tenTo k
    else if x == 0.0 then x
    else scaleDown (x / tenTo 308) (k - 308) rounds

/-- `significand · 10 ^ power`, rounded once for the significand and once for each scaling; none
if it is beyond every float. -/
def scaled? (significand : Nat) (power : Int) : Option Float :=
  let x := Float.ofNat significand
  if power < 0 then some (scaleDown x power.natAbs 4)
  else if power ≤ 308 then
    let y := x * tenTo power.natAbs
    if y.isInf then none else some y
  else if significand = 0 then some x
  else none

/-- The float of a number with a point or an exponent, or of one too large for a word. -/
def magnitude? (whole fraction : List Char) (power : Int) : Option Float :=
  let (significand, wholeRest) := gather 0 whole
  let (significand, fractionRest) := gather significand fraction
  scaled? significand (power + wholeRest.length - (fraction.length - fractionRest.length : Nat))

/-- A float with its sign. -/
def signedFloat (negative : Bool) (x : Float) : Json := float (if negative then -x else x)

/-- The number of a run of digits. Minus zero, and what does not fit a word, is a float. -/
def ofInteger (negative : Bool) (digits : List Char) : Json :=
  let n := ofDigits digits
  if negative then
    if n ≠ 0 ∧ n ≤ 0x8000000000000000 then int (-n)
    else match magnitude? digits [] 0 with
      | some x => signedFloat true x
      | none => unreadable
  else
    if n < UInt64.size then int n
    else match magnitude? digits [] 0 with
      | some x => signedFloat false x
      | none => unreadable

/-- The number of a sign, digits, digits after a point, and an exponent. -/
def ofDecimal (negative : Bool) (whole fraction : List Char) (power : Int) : Json :=
  match magnitude? whole fraction power with
  | some x => signedFloat negative x
  | none => unreadable

theorem ofInteger_of_natural {digits : List Char} (h : ofDigits digits < UInt64.size) :
    ofInteger false digits = int (ofDigits digits) := by
  simp only [ofInteger, Bool.false_eq_true, ↓reduceIte, if_pos h]

example : ofInteger true ['0'] = float (-0.0) := rfl

/-! ## Reading -/

/-- Digits in front without a useless zero. -/
def wholeDigits? (cs : List Char) : Option (List Char × List Char) :=
  match digitsOf cs with
  | [] => none
  | '0' :: _ :: _ => none
  | ds => some (ds, afterDigits cs)

/-- A point and at least one digit; no digits if there is no point. -/
def fractionDigits? : List Char → Option (List Char × List Char)
  | '.' :: cs => if digitsOf cs = [] then none else some (digitsOf cs, afterDigits cs)
  | cs => some ([], cs)

/-- The exponent in front, none if there is no mark; a mark without digits is refused. -/
def exponentInt? : List Char → Option (Option Int × List Char)
  | c :: cs =>
    if c = 'e' ∨ c = 'E' then
      let sign := signOf cs
      let ds := digitsOf (cs.drop sign.length)
      if ds = [] then none
      else some (some (integer sign ds), afterDigits (cs.drop sign.length))
    else some (none, c :: cs)
  | [] => some (none, [])

/-- The number in front of a text. -/
def number? (cs : List Char) : Option (Json × List Char) := do
  let negative := cs.head? = some '-'
  let (whole, rest) ← wholeDigits? (if negative then cs.drop 1 else cs)
  let (fraction, rest) ← fractionDigits? rest
  let (power, rest) ← exponentInt? rest
  if fraction = [] ∧ power = none then
    return (ofInteger negative whole, rest)
  else
    return (ofDecimal negative whole fraction (power.getD 0), rest)

end QueryCompiler.Json
