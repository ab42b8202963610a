import ApkFormats.Text.Hex

/-!
# Time stamps

A time is given in seconds since the start of 1970 in universal time, and is
written as date and time of day.  Years are counted from March on, so that the
day that leap years add comes last; 146097 days make a cycle of 400 years.
-/

namespace ApkFormats.Log

def secondsOfDay : Int := 86400

structure Date where
  year : Int
  month : Int
  day : Int
  deriving DecidableEq, Repr

/-- The date that is some days after the first of January 1970. -/
def Date.ofDays (days : Int) : Date :=
  let shifted := days + 719468
  let cycle := shifted / 146097
  let dayOfCycle := shifted % 146097
  let yearOfCycle :=
    (dayOfCycle - dayOfCycle / 1460 + dayOfCycle / 36524 - dayOfCycle / 146096) / 365
  let dayOfYear := dayOfCycle - (365 * yearOfCycle + yearOfCycle / 4 - yearOfCycle / 100)
  let monthFromMarch := (5 * dayOfYear + 2) / 153
  let day := dayOfYear - (153 * monthFromMarch + 2) / 5 + 1
  let month := if monthFromMarch < 10 then monthFromMarch + 3 else monthFromMarch - 9
  ⟨yearOfCycle + 400 * cycle + (if month ≤ 2 then 1 else 0), month, day⟩

/-- A number with zeros in front up to a width, behind its sign. -/
def padded (width : Nat) (n : Int) : String :=
  let sign := if n < 0 then "-" else ""
  sign ++ Text.zeroPadded (width - sign.length) (toString n.natAbs)

/-- A time as text, to the millisecond. -/
def timeText (seconds milliseconds : Int) : String :=
  let date := Date.ofDays (seconds / secondsOfDay)
  let inDay := seconds % secondsOfDay
  s!"{date.year}-" ++ padded 2 date.month ++ "-" ++ padded 2 date.day ++ "T" ++
    padded 2 (inDay / 3600) ++ ":" ++ padded 2 (inDay / 60 % 60) ++ ":" ++ padded 2 (inDay % 60) ++
    "." ++ padded 3 milliseconds ++ "Z"

end ApkFormats.Log
