/-!
# Instants

An instant is a number of nanoseconds since the start of 1970, and `Instant.text` writes
it as a date with a time in UTC.

A date is counted from the first of March, so that the leap day is the last day of a year.
Years then repeat in eras of 400, which have the same number of days each.
-/

namespace ImportTidy

/-- A point in time. -/
structure Instant where
  /-- Nanoseconds since the start of 1970. -/
  nanoseconds : Nat
deriving DecidableEq, Repr

namespace Instant

/-- A date. -/
structure Date where
  /-- The year. -/
  year : Nat
  /-- The month, from one. -/
  month : Nat
  /-- The day of the month, from one. -/
  day : Nat
deriving DecidableEq, Repr

/-- The days of an era. -/
def eraDays : Nat := 146097

/-- The days from the first of March of the year zero to the start of 1970. -/
def epochDays : Nat := 719468

/-- The date that lies so many days behind the start of 1970. -/
def dateOfDays (days : Nat) : Date :=
  let n := days + epochDays
  let era := n / eraDays
  let dayOfEra := n % eraDays
  let yearOfEra := (dayOfEra - dayOfEra / 1460 + dayOfEra / 36524 - dayOfEra / 146096) / 365
  let dayOfYear := dayOfEra - (365 * yearOfEra + yearOfEra / 4 - yearOfEra / 100)
  let shifted := (5 * dayOfYear + 2) / 153
  let month := if shifted < 10 then shifted + 3 else shifted - 9
  { year := 400 * era + yearOfEra + (if month ≤ 2 then 1 else 0)
    month := month
    day := dayOfYear - (153 * shifted + 2) / 5 + 1 }

/-- A number with zeros in front, so that it has this many digits. -/
def padded (width n : Nat) : String :=
  let digits := (toString n).toList
  String.ofList (List.replicate (width - digits.length) '0' ++ digits)

/-- The fraction of a second: nothing, or thousandths, millionths or billionths, as many as
it takes. -/
def fraction (nanoseconds : Nat) : String :=
  if nanoseconds = 0 then ""
  else if nanoseconds % 1000000 = 0 then "." ++ padded 3 (nanoseconds / 1000000)
  else if nanoseconds % 1000 = 0 then "." ++ padded 6 (nanoseconds / 1000)
  else "." ++ padded 9 nanoseconds

/-- The date and the time of an instant. -/
def text (i : Instant) : String :=
  let seconds := i.nanoseconds / 1000000000
  let date := dateOfDays (seconds / 86400)
  padded 4 date.year ++ "-" ++ padded 2 date.month ++ "-" ++ padded 2 date.day ++ "T"
    ++ padded 2 (seconds / 3600 % 24) ++ ":" ++ padded 2 (seconds / 60 % 60) ++ ":"
    ++ padded 2 (seconds % 60) ++ fraction (i.nanoseconds % 1000000000) ++ "+00:00"

end Instant

end ImportTidy
