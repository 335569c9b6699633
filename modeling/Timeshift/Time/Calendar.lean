import Timeshift.Time.Instant

/-!
# Calendar text

Instants as RFC 3339 text in UTC. Dates follow the Gregorian calendar, also before its
introduction, and the year 0 is a leap year. The calendar covers the years -262143 to 262142.
An instant outside of it is shown as the first or the last moment of the calendar.
-/

namespace Timeshift

/-! ## Days and dates -/

structure Date where
  year : Int
  month : Nat
  day : Nat
  deriving DecidableEq, Repr

/-- The date that lies `days` days after 1970-01-01.

The calendar repeats after 400 years, which have 146097 days. Years are counted from March
here, so that the leap day is the last day of its year. -/
def Date.ofDays (days : Int) : Date :=
  let fromMarch := days + 719468
  let era := fromMarch.fdiv 146097
  let dayOfEra := (fromMarch.fmod 146097).toNat
  let yearOfEra := (dayOfEra - dayOfEra / 1460 + dayOfEra / 36524 - dayOfEra / 146096) / 365
  let dayOfYear := dayOfEra - (365 * yearOfEra + yearOfEra / 4 - yearOfEra / 100)
  let monthFromMarch := (5 * dayOfYear + 2) / 153
  let month := if monthFromMarch < 10 then monthFromMarch + 3 else monthFromMarch - 9
  { year := era * 400 + yearOfEra + (if month ≤ 2 then 1 else 0)
    month
    day := dayOfYear - (153 * monthFromMarch + 2) / 5 + 1 }

/-! ## Moments -/

/-- A point in time with nanoseconds, inside the calendar. -/
structure Moment where
  seconds : Int
  nanos : Nat
  deriving DecidableEq, Repr

namespace Moment

/-- The first millisecond of the year -262143. -/
def firstMillis : Int := -8334601228800000

/-- The last millisecond of the year 262142. -/
def lastMillis : Int := 8210266876799999

/-- The moment of an instant, or the nearest end of the calendar. -/
def ofInstant (t : Instant) : Moment :=
  let ms := t.toInt
  if ms < firstMillis then ⟨firstMillis.fdiv 1000, 0⟩
  else if lastMillis < ms then ⟨lastMillis.fdiv 1000, 999999999⟩
  else ⟨ms.fdiv 1000, (ms.fmod 1000).toNat * 1000000⟩

def toInstant (m : Moment) : Instant :=
  nearest (m.seconds * 1000 + m.nanos / 1000000)

/-- A number with zeros in front of it, at least `width` digits long. -/
def padded (width n : Nat) : String :=
  let digits := Nat.toDigits 10 n
  String.ofList (List.replicate (width - digits.length) '0' ++ digits)

/-- Four digits, and a sign if the year needs more of them or lies before the year 0. -/
def yearText (year : Int) : String :=
  if 0 ≤ year && year ≤ 9999 then padded 4 year.toNat
  else (if year < 0 then "-" else "+") ++ padded 4 year.natAbs

/-- Nothing for a whole second, else as many groups of three digits as are needed. -/
def fractionText (nanos : Nat) : String :=
  if nanos = 0 then ""
  else if nanos % 1000000 = 0 then "." ++ padded 3 (nanos / 1000000)
  else if nanos % 1000 = 0 then "." ++ padded 6 (nanos / 1000)
  else "." ++ padded 9 nanos

/-- The moment as RFC 3339 text. -/
def text (m : Moment) : String :=
  let date := Date.ofDays (m.seconds.fdiv 86400)
  let second := (m.seconds.fmod 86400).toNat
  yearText date.year ++ "-" ++ padded 2 date.month ++ "-" ++ padded 2 date.day ++ "T"
    ++ padded 2 (second / 3600) ++ ":" ++ padded 2 (second / 60 % 60) ++ ":"
    ++ padded 2 (second % 60) ++ fractionText m.nanos ++ "+00:00"

end Moment

def Instant.text (t : Instant) : String := (Moment.ofInstant t).text

end Timeshift
