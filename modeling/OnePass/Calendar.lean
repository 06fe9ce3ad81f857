/-! # Calendar dates

Date and time of day of a count of seconds since the start of 1970, in UTC. -/
namespace OnePass.Calendar

structure Date where
  year : Nat
  month : Nat
  day : Nat
  deriving DecidableEq, Repr

/-- The date of a day counted from the start of 1970. Years are counted from March in periods of 400
years, so that a leap day ends its year. -/
def dateOf (days : Nat) : Date :=
  let shifted := days + 719468
  let era := shifted / 146097
  let day := shifted % 146097
  let year := (day - day / 1460 + day / 36524 - day / 146096) / 365
  let dayOfYear := day - (365 * year + year / 4 - year / 100)
  let month := (5 * dayOfYear + 2) / 153
  let civil := if month < 10 then month + 3 else month - 9
  { year := year + era * 400 + (if civil ≤ 2 then 1 else 0)
    month := civil
    day := dayOfYear - (153 * month + 2) / 5 + 1 }

def monthNames : List String :=
  ["Jan", "Feb", "Mar", "Apr", "May", "Jun", "Jul", "Aug", "Sep", "Oct", "Nov", "Dec"]

def twoPlaces (fill : String) (n : Nat) : String := (if n < 10 then fill else "") ++ toString n

def dateText (seconds : Nat) : String :=
  let date := dateOf (seconds / 86400)
  (monthNames[date.month - 1]?).getD "" ++ " " ++ twoPlaces " " date.day ++ " " ++ toString date.year

def timeText (seconds : Nat) : String :=
  let rest := seconds % 86400
  twoPlaces "0" (rest / 3600) ++ ":" ++ twoPlaces "0" (rest / 60 % 60) ++ ":" ++
    twoPlaces "0" (rest % 60)

end OnePass.Calendar
