import StacCatalog.Proofs.Time.Reading

/-!
# Moments that are written and read again
-/

namespace StacCatalog.Time

open Rfc3339 List

variable {c : Clock} {offset : Int} {cs zone : List Char} {ch : Char}

/-! ### Offsets -/

section Whole

variable (hnear : offset.natAbs < dayMicros) (hwhole : 1000000 ∣ offset)

include hnear hwhole

theorem mem_offsetText (h : ch ∈ (offsetText offset).toList) :
    ch.isDigit = true ∨ ch ∈ ['+', '-', ':'] := by
  obtain ⟨p⟩ := exists_offsetParts hnear
  have hhours := isDigit_of_number? p.hours_eq
  have hminutes := isDigit_of_number? p.minutes_eq
  have hsign := p.sign_eq
  rw [p.text_eq] at h
  rcases p.behind_eq with ⟨-, hnone⟩ | ⟨-, s₁, s₀, rest, hsome, hsecond, hrest⟩
  · grind
  · have hseconds := isDigit_of_number? hsecond
    grind

/-- **An offset is read back.** -/
theorem readOffset?_offsetText {start : Nat} (hdrop : cs.drop start = (offsetText offset).toList) :
    readOffset? (bytesOf cs) start = some offset := by
  obtain ⟨p⟩ := exists_offsetParts hnear
  obtain ⟨seconds, hvalue⟩ := id hwhole
  have hseconds := p.seconds_eq
  have hhours := p.hours_lt
  have hminutes := p.minutes_lt
  have hsecond := p.second_lt
  have hsign : p.sign = '+' ∧ seconds = ((p.hours * 60 + p.minutes) * 60 + p.second : Nat) ∨
      p.sign = '-' ∧ seconds = -((p.hours * 60 + p.minutes) * 60 + p.second : Nat) :=
    p.sign_eq.imp (.imp_right fun _ => by omega) (.imp_right fun _ => by omega)
  rw [p.text_eq] at hdrop
  rw [hvalue, Int.mul_comm]
  refine readOffset?_of_readTime? (at_of_drop hdrop) ?_ rfl (by omega) hsign
  -- Without seconds it is read like a zone of hours and minutes, with them like a time of day.
  rcases p.behind_eq with ⟨hminute, hnone⟩ | ⟨-, s₁, s₀, rest, hsome, hnumber, hrest⟩
  · rw [hnone] at hdrop
    rw [readTime?_zone p.hours_eq p.minutes_eq hdrop, show p.second = 0 by omega]
  · rw [hsome, hrest hwhole] at hdrop
    have hclock : cs.drop (start + 1) = [p.h₁, p.h₀, ':', p.m₁, p.m₀, ':', s₁, s₀] ++ [] := by
      rw [← drop_drop, hdrop]
      rfl
    have hsize : cs.length - (start + 1) = 8 := by
      rw [← length_drop, hclock]
      rfl
    have hend : (bytesOf cs).at (start + 1 + 8) = 0 := by
      rw [at_bytesOf, getElem?_eq_none (by omega)]
      rfl
    have htime : time? [p.h₁, p.h₀, ':', p.m₁, p.m₀, ':', s₁, s₀] =
        some (p.hours, p.minutes, p.second) := by
      simp [time?, p.hours_eq, p.minutes_eq, hnumber, hhours, hminutes, hsecond.le]
    rw [size_bytesOf, (readTime?_bytesOf cs.length htime hclock).1 (by omega) (by omega), hend]
    rfl

theorem suffix_offsetText_iff (front : List Char) :
    "+00:00".toList <:+ front ++ (offsetText offset).toList ↔ offset = 0 := by
  have hlast {l r front : List Char} (h : l <:+ front ++ r) (hlength : l.length = r.length) : l =
      r :=
    (suffix_of_suffix_length_le h (suffix_append front r) hlength.le).eq_of_length hlength
  constructor
  · intro h
    obtain ⟨p⟩ := exists_offsetParts hnear
    rw [p.text_eq] at h
    rcases p.behind_eq with ⟨hminute, hnone⟩ | ⟨-, s₁, s₀, rest, hsome, -, hrest⟩
    · rw [hnone] at h
      have hhours := p.hours_eq
      have hminutes := p.minutes_eq
      have hseconds := p.seconds_eq
      have hsecond := p.second_lt
      obtain ⟨-, hh₁, hh₀, hm₁, hm₀⟩ : _ ∧ '0' = p.h₁ ∧ '0' = p.h₀ ∧ '0' = p.m₁ ∧
          '0' = p.m₀ := by simpa using hlast h rfl
      rw [← hh₁, ← hh₀, show number? ['0', '0'] = some 0 from rfl, Option.some_inj] at hhours
      rw [← hm₁, ← hm₀, show number? ['0', '0'] = some 0 from rfl, Option.some_inj] at hminutes
      omega
    · -- A colon stands where the sign would be.
      rw [hsome, hrest hwhole] at h
      have hcolon : "+00:00".toList = [':', p.m₁, p.m₀, ':', s₁, s₀] :=
        hlast (show _ <:+ (front ++ [p.sign, p.h₁, p.h₀]) ++ _ by rw [append_assoc]; exact h) rfl
      cases hcolon
  · rintro rfl
    exact suffix_append _ _

/-- **The end of a text** is that of universal time only if the offset is zero. -/
theorem zulu_offsetText (front : String) :
    zulu (front ++ offsetText offset) = front ++ if offset = 0 then "Z" else offsetText offset := by
  unfold zulu
  simp only [isSuffixOf_iff_suffix, String.toList_append, suffix_offsetText_iff hnear hwhole]
  split
  · rename_i hzero
    rw [hzero, length_append, show (offsetText 0).toList =
      "+00:00".toList by decide, Nat.add_sub_cancel, take_left, String.ofList_toList]
  · rfl

end Whole

/-- **A moment is read back** if its offset is. -/
theorem readMoment?_written (h : c.isValid = true)
    (hzone : ∃ sign ∈ ['+', '-', 'Z'], zone.head? = some sign)
    (hascii : ∀ ch ∈ zone, ch.toNat < 128)
    (hoffset : ∀ cs start, cs.drop start = zone → readOffset? (bytesOf cs) start = some offset) :
    readMoment? (c.date.text ++ "T" ++ c.timeText .auto ++ String.ofList zone) =
      some ⟨c, some offset⟩ := by
  obtain ⟨fraction, hfraction, htime, hdigits⟩ := exists_fraction h
  obtain ⟨micro, -, ⟨hnone, hsix⟩, hread⟩ :=
    exists_readMoment? (date?_text (isValid_date h)) (.inl rfl) (time?_timeText h) hfraction hzone
      hascii hoffset
  have hmicro : micro = c.micro := by
    rcases hdigits with ⟨hempty, hzero⟩ | hpadded
    · rw [hnone hempty, hzero]
    · have hnumber := hsix _ hpadded (length_padded (by decide) (micro_lt h))
      rw [number?_padded] at hnumber
      exact (Option.some.inj hnumber).symm
  have htext : c.date.text ++ "T" ++ c.timeText .auto ++ String.ofList zone =
      String.ofList
        (c.date.text.toList ++ 'T' :: ((c.timeText .seconds).toList ++ (fraction ++ zone))) := by
    rw [← String.toList_inj]
    simp [htime]
  rw [htext, hread, hmicro]
  exact if_pos h

/-- **What is written can be read.** A moment whose offset is one of whole seconds below a day, or
missing, is written as a text that is read back as the same date, time of day and offset, universal
time being meant if there is none. The text ends in `Z` exactly if the offset is zero or missing. -/
theorem zuluText_read (m : Moment) (hclock : m.clock.isValid = true)
    (hoffset : ∀ offset ∈ m.offset, offset.natAbs < dayMicros ∧ 1000000 ∣ offset) :
    readMoment? (m.zuluText .auto) = some ⟨m.clock, some (m.offset.getD 0)⟩ ∧
      ((m.zuluText .auto).toList.getLast? = some 'Z' ↔ m.offset = none ∨ m.offset = some 0) := by
  obtain ⟨hnear, hwhole⟩ : (m.offset.getD 0).natAbs < dayMicros ∧ 1000000 ∣ m.offset.getD 0 := by
    cases hgiven : m.offset with
    | none => decide
    | some offset => exact hoffset offset hgiven
  have hzero : m.offset = none ∨ m.offset = some 0 ↔ m.offset.getD 0 = 0 := by
    cases m.offset <;> simp
  have htext : m.zuluText .auto = _ := zulu_offsetText hnear hwhole (m.clock.date.text ++ "T" ++
      m.clock.timeText .auto)
  rw [htext, hzero]
  -- From here on only the offset that is written counts.
  generalize m.offset.getD 0 = offset at *
  split
  · rename_i hutc
    have hzulu :
        ∀ cs start, cs.drop start = ['Z'] → readOffset? (bytesOf cs) start = some offset := by
      intro cs start hdrop
      have hend : start + 1 = cs.length := by
        have hlength : cs.length - start = 1 := by
          rw [← length_drop, hdrop]
          rfl
        omega
      simp [readOffset?, at_of_drop hdrop, hend, hutc]
    refine ⟨readMoment?_written hclock ⟨'Z', by simp, rfl⟩ (by simp) hzulu, ?_⟩
    rw [String.toList_append, getLast?_append]
    exact iff_of_true rfl hutc
  · rename_i hlocal
    have hletters {ch : Char} (hch : ch ∈ (offsetText offset).toList) :=
        mem_offsetText hnear hwhole hch
    obtain ⟨p⟩ := exists_offsetParts hnear
    have hread := readMoment?_written hclock ⟨p.sign, by grind [p.sign_eq], by rw [p.text_eq]; rfl⟩
      (fun ch hch => (plain_of_letters (by grind [hletters hch])).1) fun _ _ =>
        readOffset?_offsetText hnear hwhole
    rw [String.ofList_toList] at hread
    refine ⟨hread, iff_of_false (fun hlast => ?_) hlocal⟩
    have hsome : (offsetText offset).toList ≠ [] := by simp [p.text_eq]
    rw [String.toList_append, getLast?_append, getLast?_eq_some_getLast hsome, Option.some_or,
      Option.some_inj] at hlast
    exact absurd (hletters (hlast ▸ getLast_mem hsome)) (by decide)

/-- Two hours and a second behind universal time, with microseconds. -/
theorem zuluText_read_behind :
    readMoment? (Moment.zuluText ⟨⟨⟨7, 2, 28⟩, 23, 59, 5, 40⟩, some (-7201000000)⟩ .auto) =
      some ⟨⟨⟨7, 2, 28⟩, 23, 59, 5, 40⟩, some (-7201000000)⟩ :=
  (zuluText_read _ (by decide +kernel) (by rintro _ ⟨⟩; decide)).1

end StacCatalog.Time
