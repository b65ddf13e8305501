/-!
# What a float stands for

A 64-bit float is not a number, an infinity, or a sign with `mantissa · 2 ^ exponent`; `ofFloat`
reads this off its bits, so that exact arithmetic can go on in `Nat` and `Int`.
-/

namespace QueryCompiler.Decimal

/-- The value behind the bits of a 64-bit float. -/
inductive Binary
  | nan
  | infinite (negative : Bool)
  | finite (negative : Bool) (mantissa : Nat) (exponent : Int)
deriving DecidableEq, Repr

namespace Binary

/-- Sign bit, eleven bits of exponent and fifty-two bits of fraction. -/
def ofBits (bits : UInt64) : Binary :=
  let negative := bits >>> 63 == 1
  let field := ((bits >>> 52) &&& 0x7FF).toNat
  let fraction := (bits &&& 0xFFFFFFFFFFFFF).toNat
  if field = 0x7FF then
    if fraction = 0 then infinite negative else nan
  else if field = 0 then
    finite negative fraction (-1074)
  else
    finite negative (0x10000000000000 + fraction) (field - 1075)

/-- The value of a float. -/
def ofFloat (x : Float) : Binary := ofBits x.toBits

/-- The float below is nearer than the one above, as at a power of two. -/
def narrowBelow (mantissa : Nat) (exponent : Int) : Bool :=
  mantissa = 0x10000000000000 && exponent > -1074

/-- The whole part of `mantissa · 2 ^ exponent`. -/
def wholePart (mantissa : Nat) (exponent : Int) : Nat :=
  if 0 ≤ exponent then mantissa * Nat.pow 2 exponent.toNat
  else mantissa / Nat.pow 2 (-exponent).toNat

/-- The value cut off at the point and held within 64 bits; zero for what is no number. -/
def truncate : Binary → Int64
  | nan => 0
  | infinite negative => if negative then Int64.minValue else Int64.maxValue
  | finite negative mantissa exponent =>
    let whole : Int := wholePart mantissa exponent
    Int64.ofIntClamp (if negative then -whole else whole)

/-- A number, and not an infinite one. -/
def isFinite : Binary → Bool
  | finite _ _ _ => true
  | _ => false

end Binary

end QueryCompiler.Decimal
