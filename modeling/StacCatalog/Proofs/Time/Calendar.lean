import Mathlib.Order.Monotone.Basic
import StacCatalog.Time.Moment

/-!
# Days and dates
-/

namespace StacCatalog.Time

variable {n : Nat}

/-! ### Years -/

theorem daysBeforeYear_mono : Monotone daysBeforeYear := by
  refine monotone_nat_of_le_succ fun year => ?_
  unfold daysBeforeYear
  dsimp only
  omega

theorem daysBeforeYear_succ {year : Nat} (h : 1 ≤ year) :
    daysBeforeYear (year + 1) = daysBeforeYear year + if isLeap year then 366 else 365 := by
  obtain ⟨y, rfl⟩ := Nat.exists_eq_add_of_le' h
  have hleap :
      isLeap (y + 1) = true ↔ (y + 1) % 4 = 0 ∧ ((y + 1) % 100 ≠ 0 ∨ (y + 1) % 400 = 0) := by
    simp [isLeap]
  have hcount (k : Nat) (hk : k = 4 ∨ k = 100 ∨ k = 400) : (y + 1) / k =
      y / k + if (y + 1) % k = 0 then 1 else 0 := by
    rcases hk with rfl | rfl | rfl <;> split <;> omega
  have hcentury : y / 100 ≤ y / 4 := Nat.div_le_div_left (by decide) (by decide)
  have hfour : (y + 1) % 100 = 0 → (y + 1) % 4 = 0 := by omega
  have hfours : (y + 1) % 400 = 0 → (y + 1) % 100 = 0 := by omega
  show (y + 1) * 365 + (y + 1) / 4 - (y + 1) / 100 + (y + 1) / 400 = y * 365 +
    y / 4 - y / 100 + y / 400 + _
  simp only [hcount 4 (by decide), hcount 100 (by decide), hcount 400 (by decide), hleap]
  clear hleap hcount
  generalize y / 4 = a, y / 100 = b, y / 400 = c at *
  generalize (y + 1) % 4 = u, (y + 1) % 100 = v, (y + 1) % 400 = w at *
  split_ifs <;> omega

theorem yearOf_bounds (n : Nat) :
    1 ≤ yearOf n ∧ daysBeforeYear (yearOf n) ≤ n ∧ n < daysBeforeYear (yearOf n + 1) := by
  unfold yearOf daysBeforeYear
  dsimp only
  split
  · omega
  · split <;> omega

theorem le_yearOf_iff {year : Nat} : year ≤ yearOf n ↔ daysBeforeYear year ≤ n := by
  obtain ⟨-, hbegins, hends⟩ := yearOf_bounds n
  constructor
  · intro hle
    exact (daysBeforeYear_mono hle).trans hbegins
  · intro hle
    by_contra hlt
    have hnext : daysBeforeYear (yearOf n + 1) ≤ daysBeforeYear year :=
        daysBeforeYear_mono (by omega)
    omega

theorem monthOf_bounds : ∀ leap : Bool, ∀ day < (if leap then 366 else 365),
    1 ≤ monthOf leap day ∧ monthOf leap day ≤ 12 ∧ daysBeforeMonth leap (monthOf leap day) ≤ day ∧
      day < daysBeforeMonth leap (monthOf leap day + 1) := by
  decide +kernel

theorem daysInMonth_le : ∀ leap : Bool, ∀ month ≤ 12, daysInMonth leap month ≤ 31 := by
  decide

/-- **The date of a day** is a date, and comes after as many days. -/
theorem dayNumber_ofDayNumber (h : n < dayLimit) :
    (Date.ofDayNumber n).isValid = true ∧ (Date.ofDayNumber n).dayNumber = n := by
  obtain ⟨hfirst, hbegins, hends⟩ := yearOf_bounds n
  have hlast : yearOf n ≤ 9999 := by
    by_contra hlate
    have hreached : daysBeforeYear 10000 ≤ n := le_yearOf_iff.mp (by omega)
    exact absurd hreached (Nat.not_le_of_lt h)
  have hday : n - daysBeforeYear (yearOf n) < if isLeap (yearOf n) then 366 else 365 := by
    rw [daysBeforeYear_succ hfirst] at hends
    omega
  obtain ⟨hmonth, hmonth', hafter, hbefore⟩ := monthOf_bounds (isLeap (yearOf n)) _ hday
  unfold Date.ofDayNumber
  dsimp only
  constructor
  · have hlength : n - daysBeforeYear (yearOf n) -
        daysBeforeMonth (isLeap (yearOf n))
          (monthOf (isLeap (yearOf n)) (n - daysBeforeYear (yearOf n))) + 1 ≤
          daysInMonth (isLeap (yearOf n))
            (monthOf (isLeap (yearOf n)) (n - daysBeforeYear (yearOf n))) := by
      unfold daysInMonth
      omega
    simp [Date.isValid, hfirst, hlast, hmonth, hmonth', hlength]
  · simp only [Date.dayNumber]
    omega

/-- The whole seconds from the start of year 1 to a clock. -/
def Clock.seconds (c : Clock) : Nat :=
  c.date.dayNumber * 86400 + (c.hour * 60 + c.minute) * 60 + c.second

/-- **A clock of microseconds** shows their seconds. -/
theorem seconds_ofMicros (h : n < dayLimit * dayMicros) :
    (Clock.ofMicros n).isValid = true ∧ (Clock.ofMicros n).seconds = n / 1000000 := by
  have hday : n / dayMicros < dayLimit := Nat.div_lt_of_lt_mul (by rwa [Nat.mul_comm])
  obtain ⟨hvalid, hnumber⟩ := dayNumber_ofDayNumber hday
  unfold Clock.ofMicros
  dsimp only
  constructor
  · simp only [Clock.isValid, hvalid, Bool.true_and, Bool.and_eq_true, decide_eq_true_eq]
    unfold dayMicros
    omega
  · rw [Clock.seconds, hnumber]
    unfold dayMicros
    dsimp only
    omega

/-- A clock of microseconds shows a year from the first second of the year on. -/
theorem le_year_ofMicros {year : Nat} :
    year ≤ (Clock.ofMicros n).date.year ↔ daysBeforeYear year * 86400 ≤ n / 1000000 := by
  show year ≤ yearOf (n / dayMicros) ↔ _
  rw [le_yearOf_iff]
  unfold dayMicros
  omega

end StacCatalog.Time
