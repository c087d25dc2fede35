/-!
The Gregorian calendar, with days counted from the first of January 1970. Years are counted from
March on, so that the day that leap years add is their last.
-/
namespace RpcGateway.Time

structure Date where
  year : Int
  month : Nat
  day : Nat
  deriving DecidableEq, Repr, Inhabited

def isLeapYear (year : Int) : Bool := year % 4 == 0 && (year % 100 != 0 || year % 400 == 0)

/-- The number of days of a month, none if there is no such month. -/
def daysOfMonth (year : Int) (month : Nat) : Nat :=
  if month = 2 then if isLeapYear year then 29 else 28
  else if [4, 6, 9, 11].contains month then 30
  else if 1 ≤ month ∧ month ≤ 12 then 31
  else 0

/-- The days of 400 years. -/
def daysOfCycle : Int := 146097

/-- The days from the first of March of the year zero to the first of January 1970. -/
def daysToEpoch : Int := 719468

namespace Date

def isValid (d : Date) : Bool := 1 ≤ d.day && d.day ≤ daysOfMonth d.year d.month

/-- The number of a day. -/
def toDays (d : Date) : Int :=
  let year := if d.month ≤ 2 then d.year - 1 else d.year
  let cycle := year / 400
  let yearOfCycle := year % 400
  let dayOfYear : Int := (153 * ((d.month + 9) % 12) + 2) / 5 + d.day - 1
  cycle * daysOfCycle + yearOfCycle * 365 + yearOfCycle / 4 - yearOfCycle / 100 + dayOfYear -
    daysToEpoch

/-- The day of a number. -/
def ofDays (days : Int) : Date :=
  let days := days + daysToEpoch
  let cycle := days / daysOfCycle
  let day := days % daysOfCycle
  let year := (day - day / 1460 + day / 36524 - day / 146096) / 365
  let dayOfYear := (day - (365 * year + year / 4 - year / 100)).toNat
  let month := (5 * dayOfYear + 2) / 153
  let dayOfMonth := dayOfYear - (153 * month + 2) / 5 + 1
  if month < 10 then ⟨cycle * 400 + year, month + 3, dayOfMonth⟩
  else ⟨cycle * 400 + year + 1, month - 9, dayOfMonth⟩

end Date

end RpcGateway.Time
