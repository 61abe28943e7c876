import StacCatalog.Time.Moment

/-!
# Time stamps: floating-point numbers of milliseconds since 1970
-/

namespace StacCatalog.Time

/-- The microseconds between the first day of the calendar and the start of 1970. -/
def epochMicros : Int :=
  (⟨⟨1970, 1, 1⟩, 0, 0, 0, 0⟩ : Clock).micros

/-- The whole number nearest to a quotient, a half going to the even neighbour. -/
def roundEven (num : Int) (den : Nat) : Int :=
  let magnitude : Int := Binary64.roundDiv num.natAbs den
  if num < 0 then -magnitude else magnitude

/-- The seconds that the system can count. -/
def countable (seconds : Int) : Bool :=
  decide (-9223372036854775808 ≤ seconds) && decide (seconds < 9223372036854775808)

/-- The seconds whose year the system can name. -/
def nameable (seconds : Int) : Bool :=
  decide (-67768040609740800 ≤ seconds) && decide (seconds ≤ 67768036191676799)

/-- Whole seconds and microseconds of a number of seconds; the microseconds are never negative. -/
def splitSeconds (seconds : Binary64) : Outcome (Int × Int) :=
  match seconds.toRatio?, seconds.truncate? with
  | some (num, den), some whole =>
    let rest := num - whole * den
    let scaled := (Binary64.ofRatio (decide (rest < 0)) rest.natAbs den).mul
        (Binary64.ofInt 1000000)
    let micros := match scaled.toRatio? with
      | some (n, d) => roundEven n d
      | none => 0
    if micros ≥ 1000000 then .ok (whole + 1, micros - 1000000)
    else if micros < 0 then .ok (whole - 1, micros + 1000000)
    else .ok (whole, micros)
  | _, _ =>
    if seconds.isNaN then .error (.invalid "Invalid value NaN (not a number)")
    else .error (.overflow "timestamp out of range for platform time_t")

/-- The date and time of day of a stamp. The first day of the calendar cannot be reached. -/
def ofStamp (stamp : Binary64) : Outcome Clock := do
  let (seconds, micros) ← splitSeconds (stamp.div (Binary64.ofInt 1000))
  if !countable seconds then .error (.overflow "timestamp out of range for platform time_t")
  else if !nameable seconds then .error .noSuchYear
  else
    let instant := epochMicros + seconds * 1000000 + micros
    if instant - dayMicros < 0 then .error (.invalid "year is out of range")
    else
      match Clock.ofMicros? instant with
      | some clock => return clock
      | none => .error (.invalid "year is out of range")

end StacCatalog.Time
