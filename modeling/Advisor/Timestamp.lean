/-!
# Timestamps

A moment of universal time as text, in the Gregorian calendar. Days are counted from the first of
March, so that a leap day ends its year.
-/

namespace Advisor.Timestamp

structure Date where
  year : Nat
  month : Nat
  day : Nat
deriving DecidableEq, Repr

/-- The days from the first of March of year zero to the first of January 1970. -/
def epoch : Nat := 719468

/-- The date, the given number of days after the first of January 1970. -/
def dateOf (days : Nat) : Date :=
  let days := days + epoch
  let era := days / 146097
  let ofEra := days % 146097
  let yearOfEra := (ofEra - ofEra / 1460 + ofEra / 36524 - ofEra / 146096) / 365
  let ofYear := ofEra - (365 * yearOfEra + yearOfEra / 4 - yearOfEra / 100)
  let march := (5 * ofYear + 2) / 153
  let month := if march < 10 then march + 3 else march - 9
  { year := yearOfEra + era * 400 + if month ≤ 2 then 1 else 0
    month := month
    day := ofYear - (153 * march + 2) / 5 + 1 }

/-- A number with zeros in front of it up to the width. -/
def padded (width n : Nat) : String :=
  let digits := Nat.toDigits 10 n
  String.ofList (List.replicate (width - digits.length) '0' ++ digits)

/-- The moment, the given number of seconds after the start of 1970. -/
def ofSeconds (seconds : Nat) : String :=
  let date := dateOf (seconds / 86400)
  let second := seconds % 86400
  padded 4 date.year ++ "-" ++ padded 2 date.month ++ "-" ++ padded 2 date.day ++ "T"
    ++ padded 2 (second / 3600) ++ ":" ++ padded 2 (second / 60 % 60) ++ ":"
    ++ padded 2 (second % 60) ++ "Z"

example : ofSeconds 0 = "1970-01-01T00:00:00Z" := by decide +kernel

example : ofSeconds 951782399 = "2000-02-28T23:59:59Z" := by decide +kernel

example : ofSeconds 951868799 = "2000-02-29T23:59:59Z" := by decide +kernel

end Advisor.Timestamp
