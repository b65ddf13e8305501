import QueryCompiler.Decimal.Binary

/-!
# Shortest decimals

Of the decimals that a reader would round to a given float, `shortest` picks one with the fewest
digits, and of those the nearest. It looks for the coarsest grid `10 ^ k` that has a point in
the interval of the reals nearer to the float than to its neighbours; such a point is next to
the float itself. Main statement: `mem_candidates` (a chosen point lies in the interval).
-/

namespace QueryCompiler

/-- The number `coefficient · 10 ^ exponent`. -/
structure Decimal where
  coefficient : Nat
  exponent : Int
deriving DecidableEq, Repr

namespace Decimal

/-- Which of two equally near neighbours is taken. -/
inductive Tie
  | upward
  | toEven
deriving DecidableEq, Repr

/-- The decimal digits of the coefficient. -/
def digits (d : Decimal) : List Char := Nat.toDigits 10 d.coefficient

/-- The exponent of the leading digit. -/
def leading (d : Decimal) : Int := d.exponent + d.digits.length - 1

/-- A float `mantissa · 2 ^ exponent` seen from a decimal grid: its place and the ends of its
interval are fractions over one denominator, in units of the grid. -/
structure Grid where
  low : Nat
  place : Nat
  high : Nat
  denominator : Nat
  endsIncluded : Bool

namespace Grid

/-- The grid `10 ^ k` around `mantissa · 2 ^ exponent`. A quarter of the last binary place is the
unit of the three numerators. -/
def around (mantissa : Nat) (exponent k : Int) : Grid :=
  let up := Nat.pow 2 (exponent - 2).toNat * Nat.pow 10 (-k).toNat
  let below := if Binary.narrowBelow mantissa exponent then 1 else 2
  { low := (4 * mantissa - below) * up
    place := 4 * mantissa * up
    high := (4 * mantissa + 2) * up
    denominator := Nat.pow 2 (2 - exponent).toNat * Nat.pow 10 k.toNat
    endsIncluded := mantissa % 2 = 0 }

/-- The grid point `c` would be read back as the float. -/
def covers (g : Grid) (c : Nat) : Bool :=
  let point := c * g.denominator
  if g.endsIncluded then g.low ≤ point && point ≤ g.high else g.low < point && point < g.high

/-- The two grid points next to the float that are read back as the float. -/
def candidates (g : Grid) : List Nat :=
  let c := g.place / g.denominator
  [c, c + 1].filter fun c => 0 < c && g.covers c

theorem mem_candidates {g : Grid} {c : Nat} (h : c ∈ g.candidates) : g.covers c = true := by
  simp [candidates] at h
  exact h.2.2

/-- The nearer of the candidates. -/
def nearest (tie : Tie) (g : Grid) : Option Nat :=
  match g.candidates with
  | [] => none
  | [c] => some c
  | c :: c' :: _ =>
    let below := g.place - c * g.denominator
    let above := c' * g.denominator - g.place
    if below < above then some c
    else if above < below then some c'
    else match tie with
      | .upward => some c'
      | .toEven => some (if c % 2 = 0 then c else c')

end Grid

/-- A grid on which the float lies below the first point. -/
def coarsest (mantissa : Nat) (exponent : Int) : Int :=
  (mantissa.log2 + 1 + exponent) * 30103 / 100000 + 1

/-- Every digit of `mantissa · 2 ^ exponent`. -/
def exact (mantissa : Nat) (exponent : Int) : Decimal :=
  if 0 ≤ exponent then ⟨mantissa * Nat.pow 2 exponent.toNat, 0⟩
  else ⟨mantissa * Nat.pow 5 (-exponent).toNat, exponent⟩

/-- The decimal with the fewest digits that is read back as `mantissa · 2 ^ exponent`, and of
those the nearest. Seventeen digits are enough for every float. -/
def shortest (tie : Tie) (mantissa : Nat) (exponent : Int) : Decimal :=
  let top := coarsest mantissa exponent
  let onGrid := fun (i : Nat) =>
    let k := top - i
    ((Grid.around mantissa exponent k).nearest tie).map fun c => Decimal.mk c k
  ((List.range 20).findSome? onGrid).getD (exact mantissa exponent)

end Decimal

end QueryCompiler
