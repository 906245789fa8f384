import PathQuery.Text.Digits

/-!
Points in time, counted in seconds and nanoseconds from the start of 1970 in UTC, and their text
in RFC 3339 form on the Gregorian calendar extended in both directions.
-/

set_option autoImplicit false

namespace PathQuery

structure Timestamp where
  seconds : Int
  nanoseconds : Nat
  deriving DecidableEq, Repr, Inhabited

structure CalendarDay where
  year : Int
  month : Nat
  day : Nat
  deriving DecidableEq, Repr

namespace CalendarDay

def daysPerEra : Nat := 146097

/-- The day that lies `days` after 1970-01-01. Years are counted from March inside eras of 400
years, so that the leap day is the last day of its year. -/
def ofEpochDays (days : Int) : CalendarDay :=
  let shifted := days + 719468
  let era := shifted.fdiv daysPerEra
  let dayOfEra := (shifted.fmod daysPerEra).toNat
  let yearOfEra := (dayOfEra - dayOfEra / 1460 + dayOfEra / 36524 - dayOfEra / 146096) / 365
  let dayOfYear := dayOfEra - (365 * yearOfEra + yearOfEra / 4 - yearOfEra / 100)
  let monthFromMarch := (5 * dayOfYear + 2) / 153
  let day := dayOfYear - (153 * monthFromMarch + 2) / 5 + 1
  let month := if monthFromMarch < 10 then monthFromMarch + 3 else monthFromMarch - 9
  { year := era * 400 + yearOfEra + (if month ≤ 2 then 1 else 0), month, day }

end CalendarDay

namespace Timestamp

open Text (padded)

def writeYear (year : Int) : List Char :=
  if 0 ≤ year ∧ year ≤ 9999 then padded 10 4 year.toNat
  else if year < 0 then '-' :: padded 10 4 year.natAbs
  else '+' :: padded 10 4 year.natAbs

def writeFraction (nanoseconds : Nat) : List Char :=
  if nanoseconds = 0 then []
  else if nanoseconds % 1000000 = 0 then '.' :: padded 10 3 (nanoseconds / 1000000)
  else if nanoseconds % 1000 = 0 then '.' :: padded 10 6 (nanoseconds / 1000)
  else '.' :: padded 10 9 nanoseconds

def write (t : Timestamp) : List Char :=
  let date := CalendarDay.ofEpochDays (t.seconds.fdiv 86400)
  let second := (t.seconds.fmod 86400).toNat
  writeYear date.year ++ '-' :: padded 10 2 date.month ++ '-' :: padded 10 2 date.day ++
    'T' :: padded 10 2 (second / 3600) ++ ':' :: padded 10 2 (second / 60 % 60) ++
    ':' :: padded 10 2 (second % 60) ++ writeFraction t.nanoseconds ++ "+00:00".toList

end Timestamp

end PathQuery
