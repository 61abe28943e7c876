/-!
# The Gregorian calendar, extended to all years from 1 on
-/

namespace StacCatalog.Time

/-- Whether a year has 366 days. -/
def isLeap (year : Nat) : Bool :=
  year % 4 == 0 && (year % 100 != 0 || year % 400 == 0)

/-- The days before the first of January of a year. -/
def daysBeforeYear (year : Nat) : Nat :=
  let y := year - 1
  y * 365 + y / 4 - y / 100 + y / 400

/-- The days before the first of a month, within its year. -/
def daysBeforeMonth (leap : Bool) (month : Nat) : Nat :=
  let extra := if leap then 1 else 0
  match month with
  | 1 => 0
  | 2 => 31
  | 3 => 59 + extra
  | 4 => 90 + extra
  | 5 => 120 + extra
  | 6 => 151 + extra
  | 7 => 181 + extra
  | 8 => 212 + extra
  | 9 => 243 + extra
  | 10 => 273 + extra
  | 11 => 304 + extra
  | 12 => 334 + extra
  | _ => 365 + extra

def daysInMonth (leap : Bool) (month : Nat) : Nat :=
  daysBeforeMonth leap (month + 1) - daysBeforeMonth leap month

structure Date where
  year : Nat
  month : Nat
  day : Nat
  deriving DecidableEq, Repr, Inhabited

/-- Whether the fields name a day of the years 1 to 9999. -/
def Date.isValid (d : Date) : Bool :=
  1 ≤ d.year && d.year ≤ 9999 && 1 ≤ d.month && d.month ≤ 12 && 1 ≤ d.day &&
    d.day ≤ daysInMonth (isLeap d.year) d.month

/-- The days before a date. -/
def Date.dayNumber (d : Date) : Nat :=
  daysBeforeYear d.year + daysBeforeMonth (isLeap d.year) d.month + (d.day - 1)

/-- The number of days up to the end of the year 9999. -/
def dayLimit : Nat := daysBeforeYear 10000

/-- The month of a day of the year, the first day being 0. -/
def monthOf (leap : Bool) (day : Nat) : Nat :=
  ((List.range 12).filter fun m => daysBeforeMonth leap (m + 1) ≤ day).length

/-- The year of a day. -/
def yearOf (n : Nat) : Nat :=
  let guess := n * 400 / 146097 + 1
  if daysBeforeYear (guess + 1) ≤ n then guess + 1
  else if n < daysBeforeYear guess then guess - 1
  else guess

/-- The date with so many days before it. -/
def Date.ofDayNumber (n : Nat) : Date :=
  let year := yearOf n
  let day := n - daysBeforeYear year
  let month := monthOf (isLeap year) day
  ⟨year, month, day - daysBeforeMonth (isLeap year) month + 1⟩

/-- The day of the week of a day, Monday being 0. -/
def weekday (n : Nat) : Nat :=
  n % 7

/-- The day on which the first week of a year starts: the Monday of the week that holds its first
Thursday. Counted from one week before day 0, because it may lie in the year before. -/
def firstMonday (year : Nat) : Nat :=
  let first := daysBeforeYear year
  let day := weekday first
  if 3 < day then first + 7 - day + 7 else first - day + 7

/-- Whether a year has a week of a number. -/
def hasWeek (year week : Nat) : Bool :=
  let first := weekday (daysBeforeYear year)
  1 ≤ week && (week ≤ 52 || (week == 53 && (first == 3 || (first == 2 && isLeap year))))

/-- The date of a day of a week. -/
def Date.ofWeek? (year week day : Nat) : Option Date :=
  if 1 ≤ year && year ≤ 9999 && hasWeek year week && 1 ≤ day && day ≤ 7 then
    let n := firstMonday year + (week - 1) * 7 + (day - 1)
    if n < 7 then none else some (Date.ofDayNumber (n - 7))
  else none

end StacCatalog.Time
