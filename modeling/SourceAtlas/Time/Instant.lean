/-! Points in time and how they are written. Dates are those of the Gregorian calendar, carried on
into the past, and there is no time zone but the universal one. -/

namespace SourceAtlas

/-- A point in time: whole seconds since the start of 1970, and nanoseconds on top. -/
structure Instant where
  seconds : Int
  nanoseconds : Nat
  deriving DecidableEq, Repr

namespace Instant

/-- A number with at least the given count of digits. -/
def padded (width n : Nat) : String :=
  let digits := toString n
  String.ofList (List.replicate (width - digits.length) '0') ++ digits

structure Date where
  year : Int
  month : Nat
  day : Nat
  deriving DecidableEq, Repr

/-- The date of the day that is so many days after the start of 1970. Years are counted from March,
so that a leap day is the last of its year, and come in rounds of 400 years with 146097 days. -/
def Date.ofDays (days : Int) : Date :=
  let shifted := days + 719468
  let round := shifted.fdiv 146097
  let day := (shifted.fmod 146097).toNat
  let year := (day - day / 1460 + day / 36524 - day / 146096) / 365
  let ofYear := day - (365 * year + year / 4 - year / 100)
  let fromMarch := (5 * ofYear + 2) / 153
  let month := if fromMarch < 10 then fromMarch + 3 else fromMarch - 9
  { year := (year : Int) + round * 400 + (if month ≤ 2 then 1 else 0)
    month
    day := ofYear - (153 * fromMarch + 2) / 5 + 1 }

/-- A year in four digits; one that needs more, or lies before year 0, has a sign. -/
def yearText (year : Int) : String :=
  if 0 ≤ year ∧ year ≤ 9999 then padded 4 year.toNat
  else (if year < 0 then "-" else "+") ++ padded 4 year.natAbs

/-- Date and time of day, down to the microsecond. -/
def text (t : Instant) : String :=
  let date := Date.ofDays (t.seconds.fdiv 86400)
  let second := (t.seconds.fmod 86400).toNat
  yearText date.year ++ "-" ++ padded 2 date.month ++ "-" ++ padded 2 date.day ++ "T"
    ++ padded 2 (second / 3600) ++ ":" ++ padded 2 (second / 60 % 60) ++ ":" ++
      padded 2 (second % 60)
    ++ "." ++ padded 6 (t.nanoseconds / 1000)

end Instant

end SourceAtlas
