namespace PgPipeline

structure Date where
  year : Int
  month : Nat
  day : Nat
  deriving DecidableEq, Repr

namespace Date

def minYear : Int := -262143

def maxYear : Int := 262142

def isLeap (year : Int) : Bool := year % 4 = 0 && (year % 100 != 0 || year % 400 = 0)

def monthLengths (leap : Bool) : List Nat :=
  [31, if leap then 29 else 28, 31, 30, 31, 30, 31, 31, 30, 31, 30, 31]

def isValid (d : Date) : Bool :=
  minYear ≤ d.year && d.year ≤ maxYear && 1 ≤ d.month && 1 ≤ d.day
    && match (monthLengths (isLeap d.year))[d.month - 1]? with
      | some length => d.day ≤ length
      | none => false

def daysBeforeYear (year : Int) : Int :=
  let y := year - 1
  365 * y + y.fdiv 4 - y.fdiv 100 + y.fdiv 400

def dayNumber (d : Date) : Int :=
  let before : Nat := ((monthLengths (isLeap d.year)).take (d.month - 1)).foldr (· + ·) 0
  daysBeforeYear d.year + before + d.day

def monthAndDay (month : Nat) : List Nat → Nat → Nat × Nat
  | [], n => (month, n + 1)
  | length :: rest, n =>
    if n < length then (month, n + 1) else monthAndDay (month + 1) rest (n - length)

/-- The date of a day number: 400 years have 146097 days, 100 years have 36524 but for the last
century of a cycle, and 4 years have 1461 but for the last year of a century. -/
def ofDayNumber (n : Int) : Date :=
  let cycle := (n - 1).fdiv 146097
  let inCycle := (n - 1 - cycle * 146097).toNat
  let century := min (inCycle / 36524) 3
  let inCentury := inCycle - century * 36524
  let quad := inCentury / 1461
  let inQuad := inCentury - quad * 1461
  let yearInQuad := min (inQuad / 365) 3
  let inYear := inQuad - yearInQuad * 365
  let year := cycle * 400 + century * 100 + quad * 4 + yearInQuad + 1
  let (month, day) := monthAndDay 1 (monthLengths (isLeap year)) inYear
  ⟨year, month, day⟩

def ofDayNumber? (n : Int) : Option Date :=
  if dayNumber ⟨minYear, 1, 1⟩ ≤ n ∧ n ≤ dayNumber ⟨maxYear, 12, 31⟩ then some (ofDayNumber n)
  else none

end Date

def padded (width n : Nat) : List Char :=
  let ds := Nat.toDigits 10 n
  List.replicate (width - ds.length) '0' ++ ds

/-- Year, month and day. The years 0 to 9999 have four digits; the others have a sign in front. -/
def Date.text (d : Date) : List Char :=
  let year :=
    if d.year < 0 then '-' :: padded 4 d.year.natAbs
    else if 9999 < d.year then '+' :: padded 4 d.year.natAbs
    else padded 4 d.year.natAbs
  year ++ '-' :: padded 2 d.month ++ '-' :: padded 2 d.day

/-- A time of day. In the last second of a minute the nanoseconds may run up to two seconds, for a
leap second. -/
structure Clock where
  seconds : Nat
  nanos : Nat
  deriving DecidableEq, Repr

namespace Clock

def ofParts? (hour minute second nanos : Nat) : Option Clock :=
  if hour < 24 ∧ minute < 60 ∧ second < 60
      ∧ (nanos < 1000000000 ∨ (second = 59 ∧ nanos < 2000000000)) then
    some ⟨hour * 3600 + minute * 60 + second, nanos⟩
  else none

/-- Microseconds since midnight; the rest of the nanoseconds is dropped. -/
def micros (t : Clock) : Int := t.seconds * 1000000 + t.nanos / 1000

end Clock

def clockText (micros : Nat) : List Char :=
  let seconds := micros / 1000000
  padded 2 (seconds / 3600) ++ ':' :: padded 2 (seconds / 60 % 60) ++ ':' :: padded 2 (seconds % 60)
    ++ '.' :: padded 6 (micros % 1000000)

def dayMicros : Int := 86400000000

end PgPipeline
