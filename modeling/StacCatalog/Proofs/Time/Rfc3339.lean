import Mathlib.Data.Rat.Floor
import StacCatalog.Proofs.Text.Spans
import StacCatalog.Proofs.Time.Calendar
import StacCatalog.Time.Iso

/-!
# The date-times of RFC 3339, and the instants that they denote
-/

namespace StacCatalog.Time.Rfc3339

open List Option

variable {cs : List Char} {n : Nat} {date : Date} {c : Clock}

/-! ### Reading by the grammar -/

def number? (cs : List Char) : Option Nat :=
  if cs.all Char.isDigit then some (Nat.ofDigitChars 10 cs 0) else none

/-- A date, `YYYY-MM-DD`. The calendar begins in year 1. -/
def date? : List Char → Option Date
  | [y₃, y₂, y₁, y₀, dash, m₁, m₀, dash', d₁, d₀] => do
    let year ← number? [y₃, y₂, y₁, y₀]
    let month ← number? [m₁, m₀]
    let day ← number? [d₁, d₀]
    if dash = '-' ∧ dash' = '-' ∧ (Date.mk year month day).isValid then some ⟨year, month, day⟩
      else none
  | _ => none

/-- A time of day, `HH:MM:SS`. The second 60 is a leap second. -/
def time? : List Char → Option (Nat × Nat × Nat)
  | [h₁, h₀, colon, m₁, m₀, colon', s₁, s₀] => do
    let hour ← number? [h₁, h₀]
    let minute ← number? [m₁, m₀]
    let second ← number? [s₁, s₀]
    if colon = ':' ∧ colon' = ':' ∧ hour < 24 ∧ minute < 60 ∧
      second ≤ 60 then some (hour, minute, second) else none
  | _ => none

/-- A fraction of a second: nothing, or a point and at least one digit. -/
def fraction? : List Char → Option ℚ
  | [] => some 0
  | point :: digits => do
    let n ← number? digits
    if point = '.' ∧ digits ≠ [] then some (n / 10 ^ digits.length) else none

/-- The seconds by which local time is ahead of universal time. -/
def zone? : List Char → Option Int
  | [zulu] => if zulu = 'Z' ∨ zulu = 'z' then some 0 else none
  | [sign, h₁, h₀, colon, m₁, m₀] => do
    let hours ← number? [h₁, h₀]
    let minutes ← number? [m₁, m₀]
    if colon = ':' ∧ hours < 24 ∧ minutes < 60 then
      if sign = '+' then some ((hours * 60 + minutes) * 60 : Nat)
      else if sign = '-' then some (-((hours * 60 + minutes) * 60 : Nat))
      else none
    else none
  | _ => none

/-- Whether a character can stand in a fraction of a second. -/
def inFraction (c : Char) : Bool :=
  c.isDigit || c == '.'

/-- **The instant of a date-time**: seconds of universal time from the start of year 1. -/
def instant? (cs : List Char) : Option ℚ := do
  let date ← date? (cs.take 10)
  let (hour, minute, second) ← time? ((cs.drop 11).take 8)
  let fraction ← fraction? ((cs.drop 19).takeWhile inFraction)
  let offset ← zone? ((cs.drop 19).dropWhile inFraction)
  if cs[10]? = some 'T' ∨ cs[10]? = some 't' then
    some (((Clock.mk date hour minute second 0).seconds - offset : Int) + fraction)
  else none

/-! ### What has been read -/

theorem number?_eq_some :
    number? cs = some n ↔ cs.all Char.isDigit = true ∧ Nat.ofDigitChars 10 cs 0 = n := by
  unfold number?
  split <;> simp_all

theorem ofDigitChars_lt (h : cs.all Char.isDigit = true) :
    Nat.ofDigitChars 10 cs 0 < 10 ^ cs.length := by
  induction cs with
  | nil => decide
  | cons c cs ih =>
    rw [all_cons, Bool.and_eq_true] at h
    have hdigit : c.toNat - '0'.toNat ≤ 9 := Nat.sub_le_of_le_add (Char.isDigit_iff_toNat.mp h.1).2
    rw [Nat.ofDigitChars_cons, Nat.ofDigitChars_eq_ofDigitChars_zero, length_cons, Nat.pow_succ]
    have hrest := ih h.2
    nlinarith [Nat.mul_le_mul_left (10 ^ cs.length) hdigit]

theorem exists_of_date? (h : date? cs = some date) :
    ∃ y₃ y₂ y₁ y₀ m₁ m₀ d₁ d₀, cs = [y₃, y₂, y₁, y₀, '-', m₁, m₀, '-', d₁, d₀] ∧
      number? [y₃, y₂, y₁, y₀] = some date.year ∧ number? [m₁, m₀] = some date.month ∧
        number? [d₁, d₀] = some date.day ∧ date.isValid = true := by
  unfold date? at h
  split at h
  · rename_i y₃ y₂ y₁ y₀ dash m₁ m₀ dash' d₁ d₀
    simp only [bind_eq_bind, bind_eq_some_iff, ite_none_right_eq_some, some.injEq] at h
    obtain ⟨year, hyear, month, hmonth, day, hday, ⟨rfl, rfl, hvalid⟩, rfl⟩ := h
    exact ⟨y₃, y₂, y₁, y₀, m₁, m₀, d₁, d₀, rfl, hyear, hmonth, hday, hvalid⟩
  · cases h

theorem exists_of_time? {hour minute second : Nat} (h : time? cs = some (hour, minute, second)) :
    ∃ h₁ h₀ m₁ m₀ s₁ s₀, cs = [h₁, h₀, ':', m₁, m₀, ':', s₁, s₀] ∧ number? [h₁, h₀] = some hour ∧
      number? [m₁, m₀] = some minute ∧ number? [s₁, s₀] = some second ∧ hour < 24 ∧
      minute < 60 := by
  unfold time? at h
  split at h
  · rename_i h₁ h₀ colon m₁ m₀ colon' s₁ s₀
    simp only [bind_eq_bind, bind_eq_some_iff, ite_none_right_eq_some, some.injEq] at h
    obtain ⟨_, hhour, _, hminute, _, hsecond, ⟨rfl, rfl, hday, hhour', -⟩, heq⟩ := h
    cases heq
    exact ⟨h₁, h₀, m₁, m₀, s₁, s₀, rfl, hhour, hminute, hsecond, hday, hhour'⟩
  · cases h

theorem fraction?_cases {part : ℚ} (h : fraction? cs = some part) :
    (cs = [] ∧ part = 0) ∨
    ∃ digits, cs = '.' :: digits ∧ digits ≠ [] ∧ digits.all Char.isDigit = true ∧
      part = Nat.ofDigitChars 10 digits 0 / 10 ^ digits.length := by
  cases cs with
  | nil => exact .inl ⟨rfl, (some.inj h).symm⟩
  | cons point digits =>
    simp only [fraction?, bind_eq_bind, bind_eq_some_iff, ite_none_right_eq_some,
      some.injEq] at h
    obtain ⟨n, hn, ⟨rfl, hdigits⟩, rfl⟩ := h
    obtain ⟨hall, rfl⟩ := number?_eq_some.mp hn
    exact .inr ⟨digits, rfl, hdigits, hall, rfl⟩

theorem fraction?_bounds {part : ℚ} (h : fraction? cs = some part) : 0 ≤ part ∧ part < 1 := by
  obtain ⟨-, rfl⟩ | ⟨digits, -, -, hall, rfl⟩ := fraction?_cases h
  · decide
  · constructor
    · positivity
    · rw [div_lt_one (by positivity)]
      exact_mod_cast ofDigitChars_lt hall

theorem zone?_cases {offset : Int} (h : zone? cs = some offset) :
    (cs = ['Z'] ∧ offset = 0) ∨ cs = ['z'] ∨
    ∃ sign h₁ h₀ m₁ m₀ hours minutes, cs = [sign, h₁, h₀, ':', m₁, m₀] ∧
      number? [h₁, h₀] = some hours ∧ number? [m₁, m₀] = some minutes ∧ hours < 24 ∧ minutes < 60 ∧
      (sign = '+' ∧ offset = ((hours * 60 + minutes) * 60 : Nat) ∨
        sign = '-' ∧ offset = -((hours * 60 + minutes) * 60 : Nat)) := by
  unfold zone? at h
  split at h
  · obtain ⟨rfl | rfl, heq⟩ := ite_none_right_eq_some.mp h
    · exact .inl ⟨rfl, (some.inj heq).symm⟩
    · exact .inr (.inl rfl)
  · rename_i sign h₁ h₀ colon m₁ m₀
    simp only [bind_eq_bind, bind_eq_some_iff, ite_none_right_eq_some] at h
    obtain ⟨hours, hhours, minutes, hminutes, ⟨rfl, hday, hhour⟩, hsign⟩ := h
    refine .inr (.inr ⟨sign, h₁, h₀, m₁, m₀, hours, minutes, rfl, hhours,
      hminutes, hday, hhour, ?_⟩)
    split at hsign
    · exact .inl ⟨by assumption, (some.inj hsign).symm⟩
    · obtain ⟨rfl, heq⟩ := ite_none_right_eq_some.mp hsign
      exact .inr ⟨rfl, (some.inj heq).symm⟩
  · cases h

/-- The parts of a date-time, each with what it says. -/
structure DateTime where
  day : Date
  hour : Nat
  minute : Nat
  second : Nat
  part : ℚ
  offset : Int
  date : List Char
  divider : Char
  time : List Char
  fraction : List Char
  zone : List Char
  date_eq : date? date = some day
  divider_eq : divider = 'T' ∨ divider = 't'
  time_eq : time? time = some (hour, minute, second)
  fraction_eq : fraction? fraction = some part
  zone_eq : zone? zone = some offset

namespace DateTime

variable (t : DateTime)

def text : List Char :=
  t.date ++ t.divider :: (t.time ++ (t.fraction ++ t.zone))

def seconds : Int :=
  (Clock.mk t.day t.hour t.minute t.second 0).seconds - t.offset

theorem floor_seconds : ⌊(t.seconds : ℚ) + t.part⌋ = t.seconds := by
  obtain ⟨hlow, hhigh⟩ := fraction?_bounds t.fraction_eq
  rw [Int.floor_intCast_add, Int.floor_eq_zero_iff.mpr ⟨hlow, hhigh⟩, add_zero]

end DateTime

/-- **A text that denotes an instant** is that of a date-time. -/
theorem exists_of_instant? {q : ℚ} (h : instant? cs = some q) :
    ∃ t : DateTime, cs = t.text ∧ q = t.seconds + t.part := by
  unfold instant? at h
  simp only [bind_eq_bind, bind_eq_some_iff, ite_none_right_eq_some] at h
  obtain ⟨day, hdate, ⟨hour, minute, second⟩, htime, part, hfraction, offset,
      hzone, hdivider, heq⟩ := h
  obtain ⟨divider, hdivides, hletter⟩ : ∃ divider, cs[10]? = some divider ∧
      (divider = 'T' ∨ divider = 't') := by
    rcases hdivider with hdivider | hdivider
    · exact ⟨_, hdivider, .inl rfl⟩
    · exact ⟨_, hdivider, .inr rfl⟩
  refine ⟨⟨day, hour, minute, second, part, offset, _, divider, _, _, _, hdate, hletter,
    htime, hfraction, hzone⟩, ?_, (some.inj heq).symm⟩
  have hafter : cs.drop 10 = divider :: cs.drop 11 := by
    obtain ⟨hlength, hget⟩ := List.getElem?_eq_some_iff.mp hdivides
    rw [drop_eq_getElem_cons hlength, hget]
  have htail : (cs.drop 11).drop 8 = cs.drop 19 := drop_drop
  show cs = cs.take 10 ++ divider :: ((cs.drop 11).take 8 ++ ((cs.drop 19).takeWhile inFraction ++
    (cs.drop 19).dropWhile inFraction))
  rw [takeWhile_append_dropWhile, ← htail, take_append_drop, ← hafter, take_append_drop]

/-! ### Writing -/

theorem isDigit_of_mem_padded {width : Nat} {ch : Char} (h : ch ∈ (padded width n).toList) :
    ch.isDigit = true := by
  rw [padded, String.toList_ofList, mem_append] at h
  rcases h with hzero | hdigit
  · rw [eq_of_mem_replicate hzero]
    rfl
  · exact Nat.isDigit_of_mem_toDigits (by decide) (by decide) hdigit

theorem number?_padded (width n : Nat) : number? (padded width n).toList = some n := by
  refine number?_eq_some.mpr ⟨all_eq_true.mpr fun c hc => isDigit_of_mem_padded hc, ?_⟩
  rw [padded, String.toList_ofList, Nat.ofDigitChars_append, Nat.ofDigitChars_replicate_zero,
    Nat.mul_zero, Nat.ofDigitChars_toDigits (by decide) (by decide)]

theorem length_padded {width n : Nat} (hwidth : 0 < width) (h : n < 10 ^ width) :
    (padded width n).toList.length = width := by
  have hdigits := (Nat.length_toDigits_le_iff (by decide) hwidth).mpr h
  rw [padded, String.toList_ofList, length_append, length_replicate]
  omega

/-- **The parts of a date-time** are found at their places. -/
theorem instant?_append {date time fraction zone : List Char} (divider : Char)
    (hdate : date.length = 10) (htime : time.length = 8)
    (hfraction : ∀ c ∈ fraction, inFraction c = true)
    (hzone : ∀ c ∈ zone.head?, inFraction c = false) :
    instant? (date ++ divider :: (time ++ (fraction ++ zone))) = (do
      let day ← date? date
      let (hour, minute, second) ← time? time
      let part ← fraction? fraction
      let offset ← zone? zone
      if divider = 'T' ∨ divider = 't' then
        some (((Clock.mk day hour minute second 0).seconds - offset : Int) + part)
      else none) := by
  have hafter : (date ++ divider :: (time ++ (fraction ++ zone))).drop 10 =
      divider :: (time ++ (fraction ++ zone)) :=
    drop_left' hdate
  have hdivider : (date ++ divider :: (time ++ (fraction ++ zone)))[10]? = some divider := by
    rw [getElem?_append_right hdate.le, hdate]
    rfl
  have hbehind : (date ++ divider :: (time ++ (fraction ++ zone))).drop 11 =
      time ++ (fraction ++ zone) := by
    rw [show 11 = 10 + 1 from rfl, ← drop_drop, hafter]
    rfl
  have hrest : (date ++ divider :: (time ++ (fraction ++ zone))).drop 19 = fraction ++ zone := by
    rw [show 19 = 11 + 8 from rfl, ← drop_drop, hbehind, drop_left' htime]
  obtain ⟨hinside, hafter⟩ := takeWhile_append_stop hfraction hzone
  unfold instant?
  rw [take_left' hdate, hbehind, take_left' htime, hrest, hinside, hafter, hdivider]
  simp only [some.injEq]

/-- A number of two digits is written with two of them. -/
theorem exists_two (h : n < 100) :
    ∃ c₁ c₀, (padded 2 n).toList = [c₁, c₀] ∧ number? [c₁, c₀] = some n := by
  obtain ⟨c₁, c₀, hdigits⟩ := length_eq_two.mp (length_padded (by decide) h)
  exact ⟨c₁, c₀, hdigits, hdigits ▸ number?_padded 2 n⟩

/-- The parts of an offset as it is written: a sign, hours and minutes, and seconds behind them
unless the minutes are whole. -/
structure OffsetParts (offset : Int) where
  (sign h₁ h₀ m₁ m₀ : Char)
  (hours minutes second : Nat)
  behind : List Char
  text_eq : (offsetText offset).toList = [sign, h₁, h₀, ':', m₁, m₀] ++ behind
  sign_eq : sign = '+' ∧ 0 ≤ offset ∨ sign = '-' ∧ offset < 0
  hours_eq : number? [h₁, h₀] = some hours
  minutes_eq : number? [m₁, m₀] = some minutes
  seconds_eq : offset.natAbs / 1000000 = (hours * 60 + minutes) * 60 + second
  hours_lt : hours < 24
  minutes_lt : minutes < 60
  second_lt : second < 60
  behind_eq : 60000000 ∣ offset ∧ behind = [] ∨ ¬ 60000000 ∣ offset ∧ ∃ s₁ s₀ rest, behind = ':' ::
    s₁ :: s₀ :: rest ∧ number? [s₁, s₀] = some second ∧ (1000000 ∣ offset → rest = [])

/-- **What is written of an offset** has these parts. -/
theorem exists_offsetParts {offset : Int} (h : offset.natAbs < dayMicros) :
    Nonempty (OffsetParts offset) := by
  unfold dayMicros at h
  obtain ⟨h₁, h₀, hhours, hhours'⟩ :=
      exists_two (show offset.natAbs / 1000000 / 3600 < 100 by omega)
  obtain ⟨m₁, m₀, hminutes, hminutes'⟩ :=
      exists_two (show offset.natAbs / 1000000 / 60 % 60 < 100 by omega)
  obtain ⟨s₁, s₀, hseconds, hseconds'⟩ :=
      exists_two (show offset.natAbs / 1000000 % 60 < 100 by omega)
  obtain ⟨sign, hsign, hcases⟩ : ∃ sign, (if offset < 0 then "-" else "+").toList = [sign] ∧
      (sign = '+' ∧ 0 ≤ offset ∨ sign = '-' ∧ offset < 0) := by
    by_cases hneg : offset < 0
    · exact ⟨'-', by rw [if_pos hneg]; rfl, .inr ⟨rfl, hneg⟩⟩
    · exact ⟨'+', by rw [if_neg hneg]; rfl, .inl ⟨rfl, by omega⟩⟩
  obtain ⟨behind, htext, hbehind⟩ : ∃ behind, (offsetText offset).toList =
      [sign, h₁, h₀, ':', m₁, m₀] ++ behind ∧
      (60000000 ∣ offset ∧ behind = [] ∨ ¬ 60000000 ∣ offset ∧ ∃ s₁ s₀ rest, behind =
        ':' :: s₁ :: s₀ :: rest ∧ number? [s₁, s₀] = some (offset.natAbs / 1000000 % 60) ∧
        (1000000 ∣ offset → rest = [])) := by
    unfold offsetText
    generalize (if offset < 0 then "-" else "+") = mark at hsign
    dsimp only
    split_ifs with hmicros hsecond
    all_goals
      simp only [String.toList_append, hsign, hhours, hminutes, hseconds]
      refine ⟨_, rfl, ?_⟩
    · exact .inr ⟨by omega, s₁, s₀, _, rfl, hseconds', by omega⟩
    · exact .inr ⟨by omega, s₁, s₀, _, rfl, hseconds', fun _ => rfl⟩
    · exact .inl ⟨by omega, rfl⟩
  exact ⟨⟨sign, h₁, h₀, m₁, m₀, _, _, _, behind, htext, hcases, hhours',
    hminutes', by omega, by omega, by omega, by omega, hbehind⟩⟩

theorem fields_lt_of_isValid {d : Date} (h : d.isValid = true) :
    d.year < 10 ^ 4 ∧ d.month < 100 ∧ d.day < 100 := by
  simp only [Date.isValid, Bool.and_eq_true, decide_eq_true_eq] at h
  have hday := daysInMonth_le (isLeap d.year) d.month (by omega)
  omega

theorem date?_text {d : Date} (h : d.isValid = true) : date? d.text.toList = some d := by
  obtain ⟨hyear, hmonth, hday⟩ := fields_lt_of_isValid h
  have hnumber := number?_padded 4 d.year
  obtain ⟨y₃, y₂, y₁, y₀, hdigits⟩ := length_eq_four.mp (length_padded (by decide) hyear)
  obtain ⟨m₁, m₀, hmonth, hmonth'⟩ := exists_two hmonth
  obtain ⟨d₁, d₀, hday, hday'⟩ := exists_two hday
  rw [hdigits] at hnumber
  simp only [Date.text, String.toList_append, hdigits, hmonth, hday]
  simp [date?, hnumber, hmonth', hday', h]

theorem isValid_date (h : c.isValid = true) : c.date.isValid = true := by
  simp only [Clock.isValid, Bool.and_eq_true] at h
  exact h.1.1.1.1

theorem micro_lt (h : c.isValid = true) : c.micro < 1000000 := by
  simp only [Clock.isValid, Bool.and_eq_true, decide_eq_true_eq] at h
  exact h.2

theorem time?_timeText (h : c.isValid = true) :
    time? (c.timeText .seconds).toList = some (c.hour, c.minute, c.second) := by
  simp only [Clock.isValid, Bool.and_eq_true, decide_eq_true_eq] at h
  obtain ⟨⟨⟨⟨-, hday⟩, hhour⟩, hlast⟩, -⟩ := h
  obtain ⟨h₁, h₀, hhours, hhours'⟩ := exists_two (show c.hour < 100 by omega)
  obtain ⟨m₁, m₀, hminutes, hminutes'⟩ := exists_two (show c.minute < 100 by omega)
  obtain ⟨s₁, s₀, hseconds, hseconds'⟩ := exists_two (show c.second < 100 by omega)
  simp only [Clock.timeText, String.toList_append, hhours, hminutes, hseconds]
  simp [time?, hhours', hminutes', hseconds', hday, hhour, hlast.le]

theorem fraction?_padded {width n : Nat} (hwidth : 0 < width) (h : n < 10 ^ width) :
    fraction? ('.' :: (padded width n).toList) = some (n / 10 ^ width : ℚ) := by
  have hlength := length_padded hwidth h
  have hsome : (padded width n).toList ≠ [] := by
    intro hnone
    rw [hnone] at hlength
    exact hwidth.ne hlength
  simp [fraction?, number?_padded, hlength, hsome]

/-- The microseconds are written behind the seconds, all six digits or none. -/
theorem exists_fraction (h : c.isValid = true) :
    ∃ fraction, fraction? fraction = some (c.micro / 10 ^ 6 : ℚ) ∧
      (c.timeText .auto).toList = (c.timeText .seconds).toList ++ fraction ∧
      (fraction = [] ∧ c.micro = 0 ∨ fraction = '.' :: (padded 6 c.micro).toList) := by
  by_cases hnone : c.micro = 0
  · refine ⟨[], ?_, ?_, .inl ⟨rfl, hnone⟩⟩
    · simp [hnone, fraction?]
    · simp [Clock.timeText, hnone]
  · refine ⟨_, fraction?_padded (by decide) (micro_lt h), ?_, .inr rfl⟩
    simp [Clock.timeText, hnone]

/-- **What is written of a clock**, with a fraction of a second and a zone behind it, denotes the
instant if they are as they should be. -/
theorem instant?_written (h : c.isValid = true) {fraction zone : List Char} {part : ℚ}
    (hfraction : fraction? fraction = some part)
    (hzone : ∀ ch ∈ zone.head?, inFraction ch = false) :
    instant? ((c.date.text ++ "T" ++ c.timeText .seconds).toList ++ (fraction ++ zone)) =
      (zone? zone).map fun offset => ((c.seconds - offset : Int) : ℚ) + part := by
  have hdate := date?_text (isValid_date h)
  have htime := time?_timeText h
  obtain ⟨y₃, y₂, y₁, y₀, m₁, m₀, d₁, d₀, hday, -⟩ := exists_of_date? hdate
  obtain ⟨h₁, h₀, m₁', m₀', s₁, s₀, hhour, -⟩ := exists_of_time? htime
  have hinside : ∀ ch ∈ fraction, inFraction ch = true := by
    obtain ⟨rfl, -⟩ | ⟨digits, rfl, -, hall, -⟩ := fraction?_cases hfraction
    · nofun
    · rw [forall_mem_cons]
      exact ⟨rfl, fun ch hch => by rw [inFraction, all_eq_true.mp hall ch hch, Bool.true_or]⟩
  have hparts : (c.date.text ++ "T" ++ c.timeText .seconds).toList ++ (fraction ++ zone) =
      c.date.text.toList ++ 'T' :: ((c.timeText .seconds).toList ++ (fraction ++ zone)) := by
    simp [String.toList_append]
  rw [hparts, instant?_append 'T' (by rw [hday]; rfl) (by rw [hhour]; rfl) hinside hzone,
    hdate, htime, hfraction]
  cases zone? zone <;> rfl

theorem date?_eq_none {c : Char} (h : c ∈ cs.take 4) (hc : c.isDigit = false) :
    date? cs = none := by
  rw [eq_none_iff_forall_ne_some]
  intro date hdate
  obtain ⟨y₃, y₂, y₁, y₀, m₁, m₀, d₁, d₀, rfl, hyear, -⟩ := exists_of_date? hdate
  have hdigit := all_eq_true.mp (number?_eq_some.mp hyear).1 c h
  rw [hc] at hdigit
  cases hdigit

theorem secondsText_eq (hyear : 1000 ≤ c.date.year) :
    c.secondsText = c.date.text ++ "T" ++ c.timeText .seconds := by
  have hlength : ¬ (Nat.toDigits 10 c.date.year).length ≤ 3 := by
    rw [Nat.length_toDigits_le_iff (by decide) (by decide)]
    omega
  have hpadded : padded 4 c.date.year = toString c.date.year := by
    rw [← String.toList_inj, padded, String.toList_ofList, Nat.toString_eq_repr, Nat.toList_repr,
      Nat.sub_eq_zero_of_le (by omega), replicate_zero, nil_append]
  rw [Clock.secondsText, Date.text, hpadded]

/-- A year of less digits makes no date-time: the first dash comes too early. -/
theorem instant?_of_year_lt (hyear : c.date.year < 1000) (rest : List Char) :
    instant? (c.secondsText.toList ++ rest) = none := by
  have hlength : (Nat.toDigits 10 c.date.year).length ≤ 3 :=
      (Nat.length_toDigits_le_iff (by decide) (by decide)).mpr hyear
  obtain ⟨tail, htail⟩ : ∃ tail, c.secondsText.toList ++ rest = Nat.toDigits 10 c.date.year ++
      '-' :: tail := by
    simp [Clock.secondsText, String.toList_append, Nat.toString_eq_repr, Nat.toList_repr]
  obtain ⟨k, hk⟩ : ∃ k, 4 - (Nat.toDigits 10 c.date.year).length = k + 1 :=
    ⟨3 - (Nat.toDigits 10 c.date.year).length, by omega⟩
  rw [instant?, date?_eq_none (c := '-') _ (by decide)]
  · rfl
  · rw [htail, take_take, show min 4 10 = 4 from rfl, take_append, hk, take_succ_cons]
    exact mem_append_right _ mem_cons_self

theorem head?_zulu : ∀ ch ∈ ['Z'].head?, inFraction ch = false := by
  rintro _ ⟨⟩
  rfl

/-- **What is written in whole seconds** denotes them if the year has four digits, and nothing
otherwise. -/
theorem instant?_secondsText (h : c.isValid = true) :
    instant? (c.secondsText ++ "Z").toList =
      if 1000 ≤ c.date.year then some (c.seconds : ℚ) else none := by
  rw [String.toList_append]
  split
  · rename_i hyear
    rw [secondsText_eq hyear]
    refine (instant?_written h (show fraction? [] = some 0 from rfl) head?_zulu).trans ?_
    simp [zone?]
  · exact instant?_of_year_lt (by omega) _

end StacCatalog.Time.Rfc3339
