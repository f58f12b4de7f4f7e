import Mathlib.Data.List.Basic

/-!
# Wall-clock time

`DateTime<Utc>` and `chrono::Duration` are counts of nanoseconds. The range of
years chrono can represent and leap seconds are set aside.
-/

namespace Watchtower.Chrono

/-- Nanoseconds since 1970-01-01T00:00:00Z. -/
abbrev DateTime := Int

/-- A signed number of nanoseconds. -/
abbrev Duration := Int

def Duration.seconds (secs : Int) : Duration := secs * 1000000000

theorem Duration.seconds_nonneg (secs : Nat) : 0 ≤ Duration.seconds secs :=
  Int.mul_nonneg (Int.natCast_nonneg secs) (by decide)

/-- Whole seconds, rounded toward zero. -/
def Duration.numSeconds (d : Duration) : Int := d.tdiv 1000000000

/-- Whole seconds since 1970-01-01T00:00:00Z. -/
def DateTime.timestamp (t : DateTime) : Int := t / 1000000000

/-- A date of the proleptic Gregorian calendar with a time of day. -/
structure Civil where
  year : Int
  month : Nat
  day : Nat
  hour : Nat
  minute : Nat
  second : Nat
  nanos : Nat
  deriving DecidableEq, Repr

/-- Split a count of nanoseconds into the fields of its date. The year is counted
from March, in eras of 400 years of 146097 days, so that leap days come last. -/
def DateTime.civil (t : DateTime) : Civil :=
  let days := t / 86400000000000 + 719468
  let tod := (t % 86400000000000).toNat
  let era := days / 146097
  let dayOfEra := (days % 146097).toNat
  let yearOfEra :=
    (dayOfEra - dayOfEra / 1460 + dayOfEra / 36524 - dayOfEra / 146096) / 365
  let dayOfYear := dayOfEra - (365 * yearOfEra + yearOfEra / 4 - yearOfEra / 100)
  let monthFromMarch := (5 * dayOfYear + 2) / 153
  let month := if monthFromMarch < 10 then monthFromMarch + 3 else monthFromMarch - 9
  { year := era * 400 + yearOfEra + if month ≤ 2 then 1 else 0
    month := month
    day := dayOfYear - (153 * monthFromMarch + 2) / 5 + 1
    hour := tod / 3600000000000
    minute := tod / 60000000000 % 60
    second := tod / 1000000000 % 60
    nanos := tod % 1000000000 }

/-- Decimal digits, filled with zeros on the left. -/
def padded (width n : Nat) : String :=
  let digits := (Nat.repr n).toList
  String.ofList (List.replicate (width - digits.length) '0' ++ digits)

/-- Four digits for the years 0 to 9999, a sign and at least four digits otherwise. -/
def yearText (year : Int) : String :=
  if 0 ≤ year ∧ year ≤ 9999 then padded 4 year.toNat
  else (if year < 0 then "-" else "+") ++ padded 4 year.natAbs

/-- No fraction for whole seconds, else the shortest of three, six or nine digits. -/
def fractionText (nanos : Nat) : String :=
  if nanos = 0 then ""
  else if nanos % 1000000 = 0 then "." ++ padded 3 (nanos / 1000000)
  else if nanos % 1000 = 0 then "." ++ padded 6 (nanos / 1000)
  else "." ++ padded 9 nanos

def DateTime.toRfc3339 (t : DateTime) : String :=
  let c := t.civil
  yearText c.year ++ "-" ++ padded 2 c.month ++ "-" ++ padded 2 c.day ++ "T" ++
    padded 2 c.hour ++ ":" ++ padded 2 c.minute ++ ":" ++ padded 2 c.second ++
    fractionText c.nanos ++ "+00:00"

end Watchtower.Chrono
