import StacCatalog.Proofs.Time.Bounds

/-!
# Ranges in normal form
-/

namespace StacCatalog.Time

open Rfc3339 String Option Int

variable {library : Library} {c : Clock} {a : Option ℚ} {cs : List Char}

/-! ### Seconds as texts -/

def stamp (n : Nat) : String :=
  (Clock.ofMicros (n * 1000000)).secondsText ++ "Z"

theorem secondsText_congr {c' : Clock} (hdate : c.date = c'.date) (hhour : c.hour = c'.hour)
    (hminute : c.minute = c'.minute) (hsecond : c.second = c'.second) :
    c.secondsText = c'.secondsText := by
  unfold Clock.secondsText Clock.timeText
  rw [hdate, hhour, hminute, hsecond]

theorem secondsText_ofMicros (n : Nat) :
    (Clock.ofMicros n).secondsText ++ "Z" = stamp (n / 1000000) := by
  have hday : n / 1000000 * 1000000 / dayMicros = n / dayMicros := by
    unfold dayMicros
    omega
  have hsecond : n / 1000000 * 1000000 % dayMicros / 1000000 = n % dayMicros / 1000000 := by
    unfold dayMicros
    omega
  unfold stamp
  refine congrArg (· ++ "Z") (secondsText_congr ?_ ?_ ?_ ?_)
  · exact congrArg Date.ofDayNumber hday.symm
  · exact congrArg (· / 3600) hsecond.symm
  · exact congrArg (· / 60 % 60) hsecond.symm
  · exact congrArg (· % 60) hsecond.symm

/-- A clock as a date-time of universal time. -/
def Rfc3339.DateTime.ofClock {c : Clock} (h : c.isValid = true) : DateTime where
  day := c.date
  hour := c.hour
  minute := c.minute
  second := c.second
  part := 0
  offset := 0
  date := c.date.text.toList
  divider := 'T'
  time := (c.timeText .seconds).toList
  fraction := []
  zone := ['Z']
  date_eq := date?_text (isValid_date h)
  divider_eq := .inl rfl
  time_eq := time?_timeText h
  fraction_eq := rfl
  zone_eq := rfl

theorem Rfc3339.DateTime.text_ofClock (h : c.isValid = true) (hyear : 1000 ≤ c.date.year) :
    (DateTime.ofClock h).text = (c.secondsText ++ "Z").toList := by
  rw [secondsText_eq hyear]
  simp [DateTime.text, DateTime.ofClock, toList_append]

theorem Rfc3339.DateTime.seconds_ofClock (h : c.isValid = true) :
    (DateTime.ofClock h).seconds = c.seconds :=
  sub_zero _

section Stamp

variable {n : Nat} (hlow : daysBeforeYear 1000 * 86400 ≤ n) (hhigh : n < dayLimit * 86400)

include hlow hhigh

theorem clock_stamp :
    (Clock.ofMicros (n * 1000000)).isValid = true ∧ (Clock.ofMicros (n * 1000000)).seconds = n ∧
    1000 ≤ (Clock.ofMicros (n * 1000000)).date.year := by
  have hlimit : n * 1000000 < dayLimit * dayMicros := by
    unfold dayMicros
    omega
  obtain ⟨hvalid, hseconds⟩ := seconds_ofMicros hlimit
  refine ⟨hvalid, ?_, ?_⟩
  · rw [hseconds, Nat.mul_div_cancel n (by decide)]
  · rw [le_year_ofMicros, Nat.mul_div_cancel n (by decide)]
    exact hlow

theorem instant?_stamp : instant? (stamp n).toList = some (n : ℚ) := by
  obtain ⟨hvalid, hseconds, hyear⟩ := clock_stamp hlow hhigh
  rw [stamp, instant?_secondsText hvalid, if_pos hyear, hseconds]

/-- The text of a second is one of the date-times that the reader accepts. -/
theorem exists_dateTime_stamp (hlibrary : library.ReadsMoments) :
    ∃ t : DateTime, (stamp n).toList = t.text ∧ t.seconds = n ∧
      ∃ m, library.readMoment (ofList t.text) = .ok m := by
  obtain ⟨hvalid, hseconds, hyear⟩ := clock_stamp hlow hhigh
  refine ⟨DateTime.ofClock hvalid, (DateTime.text_ofClock hvalid hyear).symm, ?_, ?_⟩
  · rw [DateTime.seconds_ofClock, hseconds]
  · refine hlibrary.accepts _ (show ['Z'] ≠ ['z'] by decide) ?_
    simp only [Clock.isValid, Bool.and_eq_true, decide_eq_true_eq] at hvalid
    exact hvalid.1.2

theorem shape_stamp :
    (stamp n).toList.map (fun c => if c.isDigit then '0' else c) =
      "0000-00-00T00:00:00Z".toList := by
  obtain ⟨hvalid, -, hyear⟩ := clock_stamp hlow hhigh
  obtain ⟨hyear', hmonth, hday⟩ := fields_lt_of_isValid (isValid_date hvalid)
  simp only [Clock.isValid, Bool.and_eq_true, decide_eq_true_eq] at hvalid
  have hshape {width n : Nat} (hwidth : 0 < width) (hn : n < 10 ^ width) :
        (padded width n).toList.map (fun c => if c.isDigit then '0' else c) =
      List.replicate width '0' := by
    rw [List.eq_replicate_iff, List.length_map, length_padded hwidth hn, List.forall_mem_map]
    exact ⟨rfl, fun c hc => if_pos (isDigit_of_mem_padded hc)⟩
  rw [stamp, secondsText_eq hyear]
  simp only [Date.text, Clock.timeText, toList_append, List.map_append]
  rw [hshape (by decide) hyear', hshape (by decide) hmonth, hshape (by decide) hday,
    hshape (by decide) (by omega), hshape (by decide) (by omega), hshape (by decide) (by omega)]
  rfl

end Stamp

/-! ### Ends -/

/-- Whether an instant lies in the years 1000 to 9999 of universal time. -/
def InYears (q : ℚ) : Prop :=
  millennium ≤ q ∧ q < ((dayLimit * 86400 : Nat) : ℚ)

instance (q : ℚ) : Decidable (InYears q) :=
  inferInstanceAs (Decidable (_ ∧ _))

theorem InYears.exists_floor {q : ℚ} (h : InYears q) :
    ∃ n : Nat, ⌊q⌋ = n ∧ daysBeforeYear 1000 * 86400 ≤ n ∧ n < dayLimit * 86400 := by
  obtain ⟨hlow, hhigh⟩ := h
  have hlow' : ((daysBeforeYear 1000 * 86400 : Nat) : Int) ≤ ⌊q⌋ :=
      le_floor.mpr (by rw [cast_natCast]; exact hlow)
  have hhigh' : ⌊q⌋ < ((dayLimit * 86400 : Nat) : Int) :=
      floor_lt.mpr (by rw [cast_natCast]; exact hhigh)
  obtain ⟨n, hn⟩ := eq_ofNat_of_zero_le ((natCast_nonneg _).trans hlow')
  rw [hn] at hlow' hhigh'
  exact ⟨n, hn, Nat.cast_le.mp hlow', Nat.cast_lt.mp hhigh'⟩

def normalText : Option ℚ → String
  | none => ".."
  | some q => stamp ⌊q⌋.toNat

/-- Whether an end is in normal form, and denotes the whole seconds of an instant or is open. -/
def Normal (e : String) : Option ℚ → Prop
  | none => e = ".."
  | some q => e.toList.map (fun c => if c.isDigit then '0' else c) = "0000-00-00T00:00:00Z".toList ∧
      instant? e.toList = some (⌊q⌋ : ℚ)

theorem normal_normalText (h : ∀ q ∈ a, InYears q) : Normal (normalText a) a := by
  cases a with
  | none => rfl
  | some q =>
    obtain ⟨n, hn, hlow, hhigh⟩ := (h q rfl).exists_floor
    rw [normalText, Normal, hn, toNat_natCast, cast_natCast]
    exact ⟨shape_stamp hlow hhigh, instant?_stamp hlow hhigh⟩

/-- **A date-time in normal form** is the text of its whole seconds. -/
theorem normalEnd_of_readMoment (hlibrary : library.ReadsMoments) (t : DateTime)
    (hread : ∃ m, library.readMoment (ofList t.text) = .ok m) {n : Nat} (hn : t.seconds = n)
    (hhigh : n < dayLimit * 86400) : normalEnd library (ofList t.text) = .ok (stamp n) := by
  obtain ⟨m, hm⟩ := hread
  obtain ⟨hoffset, hinstant⟩ := hlibrary.instant t m hm
  obtain ⟨offset, hoffset⟩ := isSome_iff_exists.mp hoffset
  rw [hn] at hinstant
  have hutc : m.toUtc = .ok (Clock.ofMicros m.instant.toNat) := by
    have hcalendar : 0 ≤ m.instant ∧ m.instant < (dayLimit * dayMicros : Nat) := by
      unfold dayMicros
      omega
    rw [Moment.toUtc, hoffset]
    dsimp only
    rw [Clock.ofMicros?, if_pos hcalendar]
  have hsecond : m.instant.toNat / 1000000 = n := by omega
  rw [normalEnd_text, hm]
  show (do let c ← m.toUtc; return c.secondsText ++ "Z") = _
  rw [hutc, ← hsecond, ← secondsText_ofMicros]
  rfl

theorem instant?_of_end? {q : ℚ} (h : end? cs = some (some q)) : instant? cs = some q := by
  unfold end? at h
  split at h
  · cases h
  · obtain ⟨_, hq, heq⟩ := map_eq_some_iff.mp h
    cases heq
    exact hq

theorem normalEnd_trim (h : end? (Text.trimChars cs) = some a) :
    normalEnd library (ofList cs) = normalEnd library (ofList (Text.trimChars cs)) := by
  have htwice : Text.trimChars (Text.trimChars cs) = Text.trimChars cs := by
    obtain ⟨hnone, -⟩ | ⟨hdots, -⟩ | ⟨t, ht, -⟩ := end?_cases h
    · rw [hnone]
      rfl
    · rw [hdots]
      decide +kernel
    · rw [ht, t.trimChars_text]
  unfold normalEnd Text.trim
  rw [toList_ofList, toList_ofList, htwice]

/-- **An end is brought to normal form** if the reader accepts it. -/
theorem normalEnd_of_end? (hlibrary : library.ReadsMoments) (h : end? (Text.trimChars cs) = some a)
    (hyears : ∀ q ∈ a, InYears q)
    (hread : ∀ q, instant? (Text.trimChars cs) = some q →
      ∃ m, library.readMoment (ofList (Text.trimChars cs)) = .ok m) :
    normalEnd library (ofList cs) = .ok (normalText a) := by
  rw [normalEnd_trim h]
  obtain ⟨hnone, rfl⟩ | ⟨hdots, rfl⟩ | ⟨t, ht, rfl⟩ := end?_cases h
  · rw [hnone]
    rfl
  · rw [hdots]
    rfl
  · obtain ⟨n, hn, -, hhigh⟩ := (hyears _ rfl).exists_floor
    have hread := hread _ (instant?_of_end? h)
    rw [ht] at hread ⊢
    rw [normalText, hn, toNat_natCast]
    rw [t.floor_seconds] at hn
    exact normalEnd_of_readMoment hlibrary t hread hn hhigh

/-- **The normal form of an end is kept.** -/
theorem normalEnd_normalText (hlibrary : library.ReadsMoments) (h : ∀ q ∈ a, InYears q) :
    normalEnd library (normalText a) = .ok (normalText a) := by
  cases a with
  | none => rfl
  | some q =>
    obtain ⟨n, hn, hlow, hhigh⟩ := (h q rfl).exists_floor
    obtain ⟨t, ht, hseconds, hread⟩ := exists_dateTime_stamp hlow hhigh hlibrary
    have hend := normalEnd_of_readMoment hlibrary t hread hseconds hhigh
    rw [← ht, ofList_toList] at hend
    rw [normalText, hn, toNat_natCast]
    exact hend

theorem slash_notMem_normalText (a : Option ℚ) : '/' ∉ (normalText a).toList := by
  cases a with
  | none => decide
  | some q =>
    exact slash_notMem_secondsText _

/-! ### Ranges -/

/-- **What a range denotes.** Blanks may stand around its ends, and a single end is both. -/
def range? (s : String) : Option (Option ℚ × Option ℚ) :=
  match (s.toList.splitOn '/').map Text.trimChars with
  | [whole] => do
    let both ← end? whole
    return (both, both)
  | [first, last] => do
    let start ← end? first
    let stop ← end? last
    return (start, stop)
  | _ => none

theorem range?_cases {s : String} {span : Option ℚ × Option ℚ} (h : range? s = some span) :
    (splitSlash s = none ∧
      s.toList.splitOn '/' = [s.toList] ∧ end? (Text.trimChars s.toList) = some span.1 ∧
      span.1 = span.2) ∨
    '/' ∈ s.toList ∧
    ∃ first last, splitSlash s = some (ofList first, ofList last) ∧
      s.toList.splitOn '/' = [first, last] ∧
      (end? (Text.trimChars first) = some span.1 ∧ end? (Text.trimChars last) = some span.2) := by
  unfold range? at h
  obtain ⟨hslash, -, hsplit⟩ | ⟨first, last, hslash, hmem, hsplit⟩ | ⟨_, _, _, _, hsplit⟩ :=
      splitSlash_cases s
  · rw [hsplit] at h
    obtain ⟨both, hboth, heq⟩ := bind_eq_some_iff.mp h
    cases heq
    exact .inl ⟨hslash, hsplit, hboth, rfl⟩
  · rw [hsplit] at h
    obtain ⟨start, hstart, h⟩ := bind_eq_some_iff.mp h
    obtain ⟨stop, hstop, heq⟩ := bind_eq_some_iff.mp h
    cases heq
    exact .inr ⟨hmem, first, last, hslash, hsplit, hstart, hstop⟩
  · rw [hsplit] at h
    cases h

theorem normalRange_join {first last : String} (hfirst : '/' ∉ first.toList) {e e' : String}
    (he : normalEnd library first = .ok e) (he' : normalEnd library last = .ok e') :
    normalRange library (.str (first ++ "/" ++ last)) = .ok (e ++ "/" ++ e') := by
  have htext : (first ++ "/" ++ last).toList = first.toList ++ '/' :: last.toList := by
    simp [toList_append]
  unfold normalRange
  dsimp only
  rw [splitSlash_of_append htext hfirst]
  dsimp only
  rw [ofList_toList, ofList_toList, he, he']
  rfl

/-- **Ranges are brought to normal form.** A range of one or two ends, each of which is open, empty
or a date-time of the years 1000 to 9999 that the reader accepts, becomes one of exactly two ends.
An open or an empty end becomes `..`, and a date-time becomes the text of its whole seconds in
universal time. A single end is used for both. To do it again changes nothing. -/
theorem normalRange_normal (hlibrary : library.ReadsMoments) {s : String}
    {span : Option ℚ × Option ℚ} (hs : range? s = some span)
    (hyears : ∀ q ∈ instants span, InYears q)
    (hread : ∀ part ∈ s.toList.splitOn '/', ∀ q, instant? (Text.trimChars part) = some q →
      ∃ m, library.readMoment (String.ofList (Text.trimChars part)) = .ok m) :
    ∃ first last, normalRange library (.str s) = .ok (first ++ "/" ++ last) ∧
      (first ++ "/" ++ last).toList.splitOn '/' = [first.toList, last.toList] ∧
      Normal first span.1 ∧ Normal last span.2 ∧ ('/' ∉ s.toList → first = last) ∧
      normalRange library (.str (first ++ "/" ++ last)) = .ok (first ++ "/" ++ last) := by
  rw [instants, List.forall_mem_append] at hyears
  have hfirst : ∀ q ∈ span.1, InYears q := fun q hq => hyears.1 q (mem_toList.mpr hq)
  have hlast : ∀ q ∈ span.2, InYears q := fun q hq => hyears.2 q (mem_toList.mpr hq)
  refine ⟨normalText span.1, normalText span.2, ?_, ?_, normal_normalText hfirst,
    normal_normalText hlast, ?_, ?_⟩
  · unfold normalRange
    dsimp only
    -- A single instant is both ends of its range.
    obtain ⟨hslash, hsplit, hend, hsame⟩ | ⟨-, first, last, hslash, hsplit, hend, hend'⟩ :=
        range?_cases hs
    · rw [hsplit, List.forall_mem_singleton] at hread
      have hnormal := normalEnd_of_end? hlibrary hend hfirst hread
      rw [String.ofList_toList] at hnormal
      rw [hslash, ← hsame]
      dsimp only
      rw [hnormal]
      rfl
    · rw [hsplit, List.forall_mem_cons, List.forall_mem_singleton] at hread
      rw [hslash]
      dsimp only
      rw [normalEnd_of_end? hlibrary hend hfirst hread.1,
        normalEnd_of_end? hlibrary hend' hlast hread.2]
      rfl
  · have htext : (normalText span.1 ++ "/" ++ normalText span.2).toList =
        (normalText span.1).toList ++ '/' :: (normalText span.2).toList := by
      simp [String.toList_append]
    rw [htext, List.splitOn_append_cons_self_of_not_mem (slash_notMem_normalText _),
      List.splitOn_eq_singleton (slash_notMem_normalText _)]
  · intro hnone
    obtain ⟨-, -, -, hsame⟩ | ⟨hslash, -⟩ := range?_cases hs
    · rw [hsame]
    · exact absurd hslash hnone
  · exact normalRange_join (slash_notMem_normalText _) (normalEnd_normalText hlibrary hfirst)
      (normalEnd_normalText hlibrary hlast)

/-- A date-time with blanks, a fraction and an offset, and an end that is left empty. -/
theorem normalRange_normal_half :
    ∃ first,
      normalRange .plain (.str " 2020-02-12T12:30:22.5+02:00 /") = .ok (first ++ "/" ++ "..") ∧
      instant? first.toList = some 63717100222 ∧
      normalRange .plain (.str (first ++ "/" ++ "..")) = .ok (first ++ "/" ++ "..") := by
  have hs : range? " 2020-02-12T12:30:22.5+02:00 /" =
      some (some (63717100222 + 1 / 2), none) := by decide +kernel
  have hsplit : " 2020-02-12T12:30:22.5+02:00 /".toList.splitOn '/' =
      [" 2020-02-12T12:30:22.5+02:00 ".toList, []] := by
    decide +kernel
  have hread : Library.plain.readMoment
        (String.ofList (Text.trimChars " 2020-02-12T12:30:22.5+02:00 ".toList)) =
      .ok ⟨⟨⟨2020, 2, 12⟩, 12, 30, 22, 500000⟩, some 7200000000⟩ := by
    decide +kernel
  have hempty : instant? (Text.trimChars []) = none := by decide +kernel
  have hfloor : ⌊(63717100222 + 1 / 2 : ℚ)⌋ = 63717100222 := by decide +kernel
  obtain ⟨first, last, hrange, -, ⟨-, hfirst⟩, rfl, -, hagain⟩ :=
      normalRange_normal Library.readsMoments_plain hs (by decide +kernel) (by
    rw [hsplit, List.forall_mem_cons, List.forall_mem_singleton, hempty]
    exact ⟨fun _ _ => ⟨_, hread⟩, nofun⟩)
  rw [hfloor] at hfirst
  exact ⟨first, hrange, hfirst, hagain⟩

end StacCatalog.Time
