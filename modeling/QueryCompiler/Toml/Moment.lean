import QueryCompiler.Calendar
import QueryCompiler.Decimal.Numeral
import QueryCompiler.Toml.Basic

/-!
# Date-times in settings

A date, a time of day, or both with an optional zone. Only the text of a date-time is kept.
-/

namespace QueryCompiler.Toml

open Decimal

def twoDigits? (a b : Char) (low high : Nat) : Option Nat :=
  let n := ofDigits [a, b]
  if isDigit a && isDigit b && low ≤ n && n ≤ high then some n else none

/-- Takes year, month and day off the front. -/
def date? : List Char → Option (List Char)
  | y₁ :: y₂ :: y₃ :: y₄ :: '-' :: m₁ :: m₂ :: '-' :: d₁ :: d₂ :: rest => do
    if [y₁, y₂, y₃, y₄].all isDigit then
      let month ← twoDigits? m₁ m₂ 1 12
      let _ ← twoDigits? d₁ d₂ 1 (DateTime.daysInMonth (ofDigits [y₁, y₂, y₃, y₄]) month)
      return rest
    else none
  | _ => none

/-- Takes a point and digits off the front, if they are there. -/
def skipFraction : List Char → List Char
  | '.' :: cs => if digitsOf cs = [] then '.' :: cs else afterDigits cs
  | cs => cs

/-- Takes hour, minute, second and fraction off the front; a minute may have a leap second. -/
def time? : List Char → Option (List Char)
  | h₁ :: h₂ :: ':' :: m₁ :: m₂ :: ':' :: s₁ :: s₂ :: rest => do
    let _ ← twoDigits? h₁ h₂ 0 23
    let _ ← twoDigits? m₁ m₂ 0 59
    let _ ← twoDigits? s₁ s₂ 0 60
    return skipFraction rest
  | _ => none

/-- Takes a zone off the front, if it is there. -/
def skipZone (cs : List Char) : List Char :=
  match cs with
  | 'Z' :: rest | 'z' :: rest => rest
  | sign :: h₁ :: h₂ :: ':' :: m₁ :: m₂ :: rest =>
    if (sign = '+' || sign = '-') && (twoDigits? h₁ h₂ 0 23).isSome
        && (twoDigits? m₁ m₂ 0 59).isSome then rest
    else cs
  | _ => cs

/-- Takes a date, a time, or both off the front. -/
def afterDateTime? (cs : List Char) : Option (List Char) :=
  match date? cs with
  | some rest =>
    match rest with
    | c :: tail =>
      if c = 'T' ∨ c = 't' ∨ c = ' ' then
        match time? tail with
        | some rest => some (skipZone rest)
        | none => some (c :: tail)
      else some (c :: tail)
    | [] => some []
  | none => time? cs

/-- A date-time with its text. -/
def dateTime? (cs : List Char) : Option (Toml × List Char) :=
  (afterDateTime? cs).map fun rest =>
    (dateTime (String.ofList (cs.take (cs.length - rest.length))), rest)

end QueryCompiler.Toml
