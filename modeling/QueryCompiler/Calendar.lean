/-!
# Dates with a time of day

A `DateTime` is a moment of the Gregorian calendar without a zone. Its stored text shows the part of
a second, which its text in statements and its count of seconds leave out. Main statement:
`daysBeforeYear_succ` (years have 365 or 366 days).
-/

namespace QueryCompiler

/-- A second of a minute, and the nanoseconds that have gone by since it began. A leap second counts
as the last second of its minute gone on with, so that it has a billion of them or more. -/
structure Second where
  whole : Nat
  nanoseconds : Nat
deriving DecidableEq, Repr

namespace Second

instance : Coe Nat Second := ⟨fun n => ⟨n, 0⟩⟩

instance (n : Nat) : OfNat Second n := ⟨⟨n, 0⟩⟩

/-- The second as a clock shows it: a leap second has a number of its own. -/
def shown (s : Second) : Nat := s.whole + s.nanoseconds / 1000000000

/-- The nanoseconds of the second that a clock shows. -/
def part (s : Second) : Nat := s.nanoseconds % 1000000000

end Second

/-- A day of the Gregorian calendar, extended to all years, with a time of day. -/
structure DateTime where
  year : Int
  month : Nat
  day : Nat
  hour : Nat
  minute : Nat
  second : Second
deriving DecidableEq, Repr

namespace DateTime

/-- Every fourth year, of the centuries only every fourth. -/
def isLeap (year : Int) : Bool := year % 4 = 0 && (year % 100 ≠ 0 || year % 400 = 0)

/-- Days from the first day of year 1 to the first day of a year. -/
def daysBeforeYear (year : Int) : Int :=
  let n := year - 1
  365 * n + n / 4 - n / 100 + n / 400

theorem daysBeforeYear_succ (year : Int) :
    daysBeforeYear (year + 1) = daysBeforeYear year + if isLeap year then 366 else 365 := by
  simp only [daysBeforeYear, isLeap, Bool.and_eq_true, Bool.or_eq_true, decide_eq_true_eq]
  split <;> omega

/-- The lengths of the months of a year. -/
def monthLengths (year : Int) : List Nat :=
  [31, if isLeap year then 29 else 28, 31, 30, 31, 30, 31, 31, 30, 31, 30, 31]

/-- Days from the first day of a year to the first day of a month. -/
def daysBeforeMonth (year : Int) (month : Nat) : Nat :=
  ((monthLengths year).take (month - 1)).foldl (· + ·) 0

/-- The length of a month; zero if there is no such month. -/
def daysInMonth (year : Int) (month : Nat) : Nat :=
  if month = 0 then 0 else ((monthLengths year)[month - 1]?).getD 0

/-- Days from the first day of year 1 to the first day of 1970. -/
def epochDay : Int := 719162

/-- Seconds since the start of 1970. -/
def epochSeconds (t : DateTime) : Int :=
  let days := daysBeforeYear t.year - epochDay + daysBeforeMonth t.year t.month + (t.day - 1 : Nat)
  days * 86400 + t.hour * 3600 + t.minute * 60 + t.second.whole

example : epochSeconds ⟨1970, 1, 1, 0, 0, 0⟩ = 0 := by decide

/-! ## Texts -/

/-- A number in at least `width` digits. -/
def padded (width n : Nat) : List Char :=
  let ds := Nat.toDigits 10 n
  List.replicate (width - ds.length) '0' ++ ds

/-- A year in four digits; with a sign where four digits do not do. -/
def yearText (year : Int) : List Char :=
  if 0 ≤ year ∧ year ≤ 9999 then padded 4 year.natAbs
  else (if year < 0 then '-' else '+') :: padded 4 year.natAbs

/-- Year to second, with `between` between day and hour. -/
def textWith (between : Char) (t : DateTime) : List Char :=
  yearText t.year ++ '-' :: padded 2 t.month ++ '-' :: padded 2 t.day ++
    between :: padded 2 t.hour ++ ':' :: padded 2 t.minute ++ ':' :: padded 2 t.second.shown

/-- A part of a second behind a point, in as many of three, six or nine digits as it takes. -/
def partText (n : Nat) : List Char :=
  if n = 0 then []
  else if n % 1000000 = 0 then '.' :: padded 3 (n / 1000000)
  else if n % 1000 = 0 then '.' :: padded 6 (n / 1000)
  else '.' :: padded 9 n

/-- The text of a date-time in a statement. -/
def text (t : DateTime) : String := String.ofList (t.textWith ' ')

/-- The text of a date-time in stored requests. -/
def storedText (t : DateTime) : String :=
  String.ofList (t.textWith 'T' ++ partText t.second.part)

example : storedText ⟨2016, 12, 31, 23, 59, ⟨59, 1250000000⟩⟩ = "2016-12-31T23:59:60.250" := by
  decide +kernel

end DateTime

end QueryCompiler
