import QueryCompiler.Decimal.Numeral
import QueryCompiler.Text.Hexadecimal
import QueryCompiler.Toml.Moment
import QueryCompiler.Word

/-!
# Numbers in settings

Integers of a word in base 2, 8, 10 or 16, and floats. Single low lines may stand between
digits. Main statement: `all_moreDigits` (low lines are left out, and nothing but digits is taken).
-/

namespace QueryCompiler.Toml

open Decimal

/-- Further digits, single low lines between them. -/
def moreDigits (p : Char → Bool) : List Char → List Char × List Char
  | '_' :: c :: cs =>
    if p c then ((c :: (moreDigits p cs).1), (moreDigits p cs).2) else ([], '_' :: c :: cs)
  | c :: cs => if p c then ((c :: (moreDigits p cs).1), (moreDigits p cs).2) else ([], c :: cs)
  | [] => ([], [])

/-- At least one digit, and further ones. -/
def grouped? (p : Char → Bool) (cs : List Char) : Option (List Char × List Char) :=
  match cs with
  | c :: _ => if p c then some (moreDigits p cs) else none
  | [] => none

/-- The digits of a whole number; a zero in front stands alone. -/
def whole? (cs : List Char) : Option (List Char × List Char) :=
  match cs with
  | '0' :: rest => some (['0'], rest)
  | cs => grouped? isDigit cs

/-- A number in base 2, 8 or 16 behind its mark. -/
def based? (base : Nat) (cs : List Char) : Option (Toml × List Char) := do
  let (ds, rest) ← grouped? (fun c => (Text.hexValue? c).any (· < base)) cs
  let n := ds.foldl (fun n c => base * n + (Text.hexValue? c).getD 0) 0
  return (int (← word? n), rest)

/-- The exponent of a float, as it is written without low lines. -/
def exponent? : List Char → Option (List Char × List Char)
  | c :: cs =>
    if c = 'e' ∨ c = 'E' then do
      let sign := signOf cs
      let (ds, rest) ← grouped? isDigit (cs.drop sign.length)
      return (c :: sign ++ ds, rest)
    else none
  | [] => none

/-- The fraction of a float, as it is written without low lines. -/
def fraction? : List Char → Option (List Char × List Char)
  | '.' :: cs => (grouped? isDigit cs).map fun r => ('.' :: r.1, r.2)
  | _ => none

/-- The float of a numeral; one beyond every positive float is refused. -/
def ofNumeral? (n : Numeral) : Option Toml :=
  if n.toFloat == 1.0 / 0.0 then none else some (float n.toFloat)

/-- A number with a fraction or an exponent. -/
def decimal? (cs : List Char) : Option (Toml × List Char) := do
  let sign := signOf cs
  let (whole, rest) ← whole? (cs.drop sign.length)
  match fraction? rest with
  | some (fraction, rest) =>
    let (exponent, rest) := (exponent? rest).getD ([], rest)
    return (← ofNumeral? ⟨sign, whole, fraction, exponent⟩, rest)
  | none =>
    let (exponent, rest) ← exponent? rest
    return (← ofNumeral? ⟨sign, whole, [], exponent⟩, rest)

/-- An infinity or what is no number, after at most one sign. -/
def special? (cs : List Char) : Option (Toml × List Char) :=
  let sign := signOf cs
  match cs.drop sign.length with
  | 'i' :: 'n' :: 'f' :: rest =>
    some (float (if sign = ['-'] then -1.0 / 0.0 else 1.0 / 0.0), rest)
  | 'n' :: 'a' :: 'n' :: rest => some (float (0.0 / 0.0), rest)
  | _ => none

def integer? (cs : List Char) : Option (Toml × List Char) := do
  let sign := signOf cs
  let (ds, rest) ← whole? (cs.drop sign.length)
  return (int (← word? (integer sign ds)), rest)

/-- A date-time or a number. -/
def number? (cs : List Char) : Option (Toml × List Char) :=
  (dateTime? cs).orElse fun _ => (decimal? cs).orElse fun _ => (special? cs).orElse fun _ =>
    match cs with
    | '0' :: 'x' :: cs => based? 16 cs
    | '0' :: 'o' :: cs => based? 8 cs
    | '0' :: 'b' :: cs => based? 2 cs
    | cs => integer? cs

theorem all_moreDigits (p : Char → Bool) (cs : List Char) : (moreDigits p cs).1.all p = true := by
  fun_induction moreDigits p cs <;> simp_all

end QueryCompiler.Toml
