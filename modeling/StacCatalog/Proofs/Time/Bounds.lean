import StacCatalog.Proofs.Time.Interval

/-!
# What the ends of an interval denote if they are given as moments
-/

namespace StacCatalog.Time

open Rfc3339 List String

variable {c : Clock}

namespace Rfc3339

theorem micros_eq (c : Clock) : c.micros = c.seconds * 1000000 + c.micro := by
  unfold Clock.micros Clock.seconds dayMicros
  omega

/-- **What is written in milliseconds** denotes what the clock shows, as universal time. -/
theorem instant?_millisText (h : c.isValid = true) :
    instant? c.millisText.toList =
      if 1000 ≤ c.date.year then some (((c.micros / 1000 : Nat) : ℚ) / 1000) else none := by
  have htext : c.millisText.toList =
      c.secondsText.toList ++ ('.' :: (padded 3 (c.micro / 1000)).toList ++ ['Z']) := by
    simp [Clock.millisText, toList_append]
  have hmicro := micro_lt h
  rw [htext]
  split
  · rename_i hyear
    rw [secondsText_eq hyear, instant?_written h
      (fraction?_padded (by decide) (by omega)) head?_zulu]
    have hmillis : c.micros / 1000 = c.seconds * 1000 + c.micro / 1000 := by
      rw [micros_eq]
      omega
    rw [hmillis, show zone? ['Z'] = some 0 from rfl, Option.map_some]
    push_cast
    ring_nf
  · exact instant?_of_year_lt (by omega) _

/-- **What is written of an offset** is the offset if it has whole minutes, and nothing otherwise.
-/
theorem zone?_offsetText {offset : Int} (h : offset.natAbs < dayMicros) :
    zone? (offsetText offset).toList =
      if 60000000 ∣ offset then some (offset / 1000000) else none := by
  obtain ⟨p⟩ := exists_offsetParts h
  rw [p.text_eq]
  have hseconds := p.seconds_eq
  rcases p.behind_eq with ⟨hwhole, hnone⟩ | ⟨hpart, s₁, s₀, rest, hsome, -⟩
  · rw [if_pos hwhole, hnone]
    have hsecond := p.second_lt
    rcases p.sign_eq with ⟨hsign, hpos⟩ | ⟨hsign, hneg⟩
    all_goals
      simp [zone?, hsign, p.hours_eq, p.minutes_eq, p.hours_lt, p.minutes_lt]
      omega
  · rw [if_neg hpart, hsome]
    rfl

end Rfc3339

/-! ### Moments as ends -/

/-- A date and a time of day with its distance from universal time, both as the calendar has them.
-/
structure Aware where
  clock : Clock
  offset : Int
  valid : clock.isValid = true
  near : offset.natAbs < dayMicros

namespace Aware

variable (a : Aware)

def moment : Moment := ⟨a.clock, some a.offset⟩

def seconds : ℚ := a.moment.instant / 1000000

/-- The instant, in seconds of which only whole thousandths count. -/
def millis : ℚ := (⌊a.seconds * 1000⌋ : ℚ) / 1000

theorem millis_eq : a.millis = ((a.moment.instant / 1000 : Int) : ℚ) / 1000 := by
  have hscaled : a.seconds * 1000 = (a.moment.instant : ℚ) / (1000 : Nat) := by
    rw [seconds]
    push_cast
    ring
  rw [millis, hscaled, Rat.floor_intCast_div_natCast]
  rfl

/-- **A single moment** denotes its instant if its offset has whole minutes, and nothing otherwise.
-/
theorem instant?_text :
    instant? (a.moment.text .auto).toList =
      if 60000000 ∣ a.offset then some a.seconds else none := by
  obtain ⟨fraction, hfraction, htime, -⟩ := exists_fraction a.valid
  have htext : (a.moment.text .auto).toList =
      (a.clock.date.text ++ "T" ++ a.clock.timeText .seconds).toList ++
      (fraction ++ (offsetText a.offset).toList) := by
    simp [Moment.text, moment, htime, toList_append]
  have hsign : ∀ ch ∈ (offsetText a.offset).toList.head?, inFraction ch = false := by
    obtain ⟨p⟩ := exists_offsetParts a.near
    rw [p.text_eq]
    rintro _ ⟨⟩
    rcases p.sign_eq with ⟨hplus, -⟩ | ⟨hminus, -⟩
    · rw [hplus]
      rfl
    · rw [hminus]
      rfl
  rw [htext, instant?_written a.valid hfraction hsign, zone?_offsetText a.near]
  split
  · rename_i hwhole
    obtain ⟨k, hk⟩ := hwhole
    have hseconds : a.offset / 1000000 = 60 * k := by omega
    have hinstant : a.moment.instant =
        a.clock.seconds * 1000000 + a.clock.micro - 60000000 * k := by
      show (a.clock.micros : Int) - a.offset = _
      rw [micros_eq, hk]
      push_cast
      rfl
    rw [Option.map_some, hseconds, seconds, hinstant]
    push_cast
    ring_nf
  · rfl

/-- **A moment of a pair** denotes what its clock shows, as universal time. -/
theorem instant?_millisText_iff (hoffset : 1000 ∣ a.offset) :
    instant? a.clock.millisText.toList = some a.millis ↔
      1000 ≤ a.clock.date.year ∧ a.offset = 0 := by
  obtain ⟨k, hk⟩ := hoffset
  have hinstant : a.moment.instant / 1000 = (a.clock.micros / 1000 : Nat) - k := by
    show ((a.clock.micros : Int) - a.offset) / 1000 = _
    omega
  rw [instant?_millisText a.valid, Option.ite_none_right_eq_some, Option.some_inj,
    a.millis_eq, hinstant]
  refine and_congr_right fun _ => ?_
  rw [div_left_inj' (by norm_num), hk, ← Int.cast_natCast, Int.cast_inj]
  omega

/-- An end of a pair as it is given. -/
def given : Option Aware → IntervalArg
  | none => .value .null
  | some a => .moment a.moment

/-- What becomes of an end of a pair: it denotes what the clock shows as universal time, so that for
an offset of whole milliseconds the instant is kept only if the offset is zero. -/
def WrittenAs (bound : Option String) : Option Aware → Prop
  | none => bound = none
  | some a => ∃ text, bound = some text ∧
      instant? text.toList =
        (if 1000 ≤ a.clock.date.year then some (((a.clock.micros / 1000 : Nat) : ℚ) / 1000)
        else none) ∧ (1000 ∣ a.offset → (instant? text.toList = some a.millis ↔
        1000 ≤ a.clock.date.year ∧ a.offset = 0))

theorem tupleEnd_given (side : Option Aware) :
    ∃ bound, tupleEnd (given side) = .ok bound ∧ WrittenAs bound side := by
  cases side with
  | none => exact ⟨none, rfl, rfl⟩
  | some a => exact ⟨_, rfl, _, rfl, instant?_millisText a.valid, a.instant?_millisText_iff⟩

end Aware

/-- **The ends of moments.** The two ends of a pair are written as their clocks show them, whatever
their offsets are. Both ends of a single moment denote its instant exactly if its offset has whole
minutes. -/
theorem bounds_of_moments (start stop : Option Aware) (single : Aware) :
    (∃ ends, bounds (.tuple [Aware.given start, Aware.given stop]) = .ok ends ∧
      Aware.WrittenAs ends.gte start ∧ Aware.WrittenAs ends.lte stop) ∧
    ∃ text, bounds (.moment single.moment) = .ok ⟨some text, some text⟩ ∧
      instant? text.toList = if 60000000 ∣ single.offset then some single.seconds else none := by
  obtain ⟨gte, hgte, hstart⟩ := Aware.tupleEnd_given start
  obtain ⟨lte, hlte, hstop⟩ := Aware.tupleEnd_given stop
  refine ⟨⟨⟨gte, lte⟩, ?_, hstart, hstop⟩, _, rfl, single.instant?_text⟩
  rw [bounds, hgte, hlte]
  rfl

def twoHoursAhead : Aware :=
  ⟨⟨⟨2020, 2, 12⟩, 12, 30, 22, 0⟩, 7200000000, by decide +kernel, by decide +kernel⟩

/-- A pair that begins two hours ahead of universal time is asked for two hours too late; alone, the
moment is kept. -/
theorem bounds_of_moments_twoHoursAhead :
    (∃ ends text, bounds (.tuple [.moment twoHoursAhead.moment, .value .null]) = .ok ends ∧
      ends.gte = some text ∧ instant? text.toList ≠ some twoHoursAhead.millis) ∧
    ∃ text, bounds (.moment twoHoursAhead.moment) = .ok ⟨some text, some text⟩ ∧
      instant? text.toList = some twoHoursAhead.seconds := by
  obtain ⟨⟨ends, hends, ⟨text, htext, -, hkept⟩, -⟩, single, hsingle, hinstant⟩ :=
    bounds_of_moments (some twoHoursAhead) none twoHoursAhead
  refine ⟨⟨ends, text, hends, htext, fun h => ?_⟩, single, hsingle,
    hinstant.trans (if_pos (by decide))⟩
  exact absurd ((hkept (by decide)).mp h).2 (by decide)

end StacCatalog.Time
