import StacCatalog.Fault
import StacCatalog.Time.Calendar

/-!
# Moments: a date and a time of day, with or without the distance from universal time
-/

namespace StacCatalog.Time

structure Clock where
  date : Date
  hour : Nat
  minute : Nat
  second : Nat
  micro : Nat
  deriving DecidableEq, Repr, Inhabited

/-- Whether the fields lie in their ranges. -/
def Clock.isValid (c : Clock) : Bool :=
  c.date.isValid && c.hour < 24 && c.minute < 60 && c.second < 60 && c.micro < 1000000

def dayMicros : Nat := 86400000000

/-- Microseconds from the start of year 1. -/
def Clock.micros (c : Clock) : Nat :=
  c.date.dayNumber * dayMicros + ((c.hour * 60 + c.minute) * 60 + c.second) * 1000000 + c.micro

/-- The date and time of a count of microseconds. -/
def Clock.ofMicros (n : Nat) : Clock :=
  let seconds := n % dayMicros / 1000000
  { date := Date.ofDayNumber (n / dayMicros)
    hour := seconds / 3600
    minute := seconds / 60 % 60
    second := seconds % 60
    micro := n % 1000000 }

/-- The date and time of a count of microseconds that lies in the years 1 to 9999. -/
def Clock.ofMicros? (n : Int) : Option Clock :=
  if 0 ≤ n ∧ n < (dayLimit * dayMicros : Nat) then some (Clock.ofMicros n.toNat) else none

/-- A date and time of day, and how far it is ahead of universal time, in microseconds. -/
structure Moment where
  clock : Clock
  offset : Option Int
  deriving DecidableEq, Repr, Inhabited

/-- The instant: microseconds of universal time. -/
def Moment.instant (m : Moment) : Int :=
  (m.clock.micros : Int) - m.offset.getD 0

/-- The fault of leaving the calendar. -/
def outsideCalendar : Fault := .overflow "date value out of range"

/-- The moment in universal time. A moment without an offset is local time, which is universal time;
the first day of the calendar has no local time. -/
def Moment.toUtc (m : Moment) : Outcome Clock :=
  match m.offset with
  | none =>
    if m.clock.micros < dayMicros then .error (.invalid "year 0 is out of range") else .ok m.clock
  | some _ =>
    match Clock.ofMicros? m.instant with
    | some c => .ok c
    | none => .error outsideCalendar

end StacCatalog.Time
