import StacCatalog.Proofs.Json.Access
import StacCatalog.Proofs.Time.Reading

/-!
# What an interval of a request means
-/

namespace StacCatalog.Time

open Rfc3339 List Outcome Option

variable {library : Library} {cs : List Char} {a : Option ℚ} {c : Clock} {e : String}

/-! ### Meaning -/

/-- What an end of an interval denotes: an instant, or nothing if it is left empty or open. -/
def end? (cs : List Char) : Option (Option ℚ) :=
  if cs = [] ∨ cs = ['.', '.'] then some none else (instant? cs).map some

/-- **What an interval denotes.** A single instant is both ends. -/
def span? (s : String) : Option (Option ℚ × Option ℚ) :=
  match s.toList.splitOn '/' with
  | [whole] => do
    let q ← instant? whole
    return (some q, some q)
  | [first, last] => do
    let start ← end? first
    let stop ← end? last
    return (start, stop)
  | _ => none

/-- Whether an end of an interval is left empty. -/
def hasEmptyEnd (s : String) : Bool :=
  (s.toList.splitOn '/').any isEmpty

/-- What an end in a query denotes: nothing if there is none, and otherwise the instant of the text.
-/
def bound? : Option String → Option (Option ℚ)
  | none => some none
  | some text => (instant? text.toList).map some

/-- **What the ends in a query denote.** -/
def Bounds.span? (b : Bounds) : Option (Option ℚ × Option ℚ) := do
  let start ← bound? b.gte
  let stop ← bound? b.lte
  return (start, stop)

/-- The instants of a pair of ends. -/
def instants (span : Option ℚ × Option ℚ) : List ℚ :=
  span.1.toList ++ span.2.toList

def millennium : ℚ :=
  ((daysBeforeYear 1000 * 86400 : Nat) : ℚ)

/-! ### One end -/

theorem end?_cases (h : end? cs = some a) : (cs = [] ∧ a = none) ∨ (cs = ['.', '.'] ∧ a = none) ∨
      ∃ t : DateTime, cs = t.text ∧ a = some (t.seconds + t.part) := by
  unfold end? at h
  split at h
  · rename_i hopen
    rcases hopen with rfl | rfl
    · exact .inl ⟨rfl, (some.inj h).symm⟩
    · exact .inr (.inl ⟨rfl, (some.inj h).symm⟩)
  · obtain ⟨q, hq, rfl⟩ := map_eq_some_iff.mp h
    obtain ⟨t, rfl, rfl⟩ := exists_of_instant? hq
    exact .inr (.inr ⟨t, rfl, rfl⟩)

theorem end?_of_instant? {q : ℚ} (h : instant? cs = some q) : end? cs = some (some q) := by
  have hwritten : ¬ (cs = [] ∨ cs = ['.', '.']) := by
    intro hopen
    rcases hopen with rfl | rfl <;> cases h
  rw [end?, if_neg hwritten, h]
  rfl

/-- **An end as it is written** denotes what it should, unless it is empty. -/
theorem bound?_openEnd (h : end? cs = some a) :
    bound? (openEnd (String.ofList cs)) = if cs = [] then none else some a := by
  unfold end? at h
  split at h
  · rename_i hopen
    cases h
    rcases hopen with rfl | rfl
    · decide +kernel
    · decide +kernel
  · rename_i hwritten
    rw [not_or] at hwritten
    have hdots : String.ofList cs ≠ ".." :=
        fun heq => hwritten.2 (by rw [← String.toList_ofList (l := cs), heq]; rfl)
    rw [openEnd, if_neg hdots, if_neg hwritten.1, ← h, bound?, String.toList_ofList]

theorem slash_notMem_secondsText (c : Clock) : '/' ∉ (c.secondsText ++ "Z").toList := by
  have hpadded (width n : Nat) : '/' ∉ (padded width n).toList :=
      fun hslash => by cases isDigit_of_mem_padded hslash
  have hyear : '/' ∉ Nat.toDigits 10 c.date.year := fun hslash => by
    cases Nat.isDigit_of_mem_toDigits (by decide) (by decide) hslash
  simp [Clock.secondsText, Clock.timeText, Nat.toString_eq_repr, Nat.toList_repr, hpadded, hyear]

theorem exists_of_toUtc {m : Moment} (hoffset : m.offset.isSome = true) (h : m.toUtc = .ok c) :
    ∃ n : Nat, m.instant = n ∧ n < dayLimit * dayMicros ∧ c = Clock.ofMicros n := by
  obtain ⟨offset, hoffset⟩ := isSome_iff_exists.mp hoffset
  unfold Moment.toUtc at h
  rw [hoffset] at h
  dsimp only at h
  split at h
  · rename_i found hfound
    cases h
    obtain ⟨⟨hlow, hhigh⟩, heq⟩ := ite_none_right_eq_some.mp hfound
    refine ⟨m.instant.toNat, (Int.toNat_of_nonneg hlow).symm, ?_, (some.inj heq).symm⟩
    exact (Int.toNat_lt hlow).mpr hhigh
  · cases h

/-- A date-time is neither empty nor open: it is read. -/
theorem normalEnd_text (t : DateTime) : normalEnd library (String.ofList t.text) = (do
      let c ← (← library.readMoment (String.ofList t.text)).toUtc
      return c.secondsText ++ "Z") := by
  have htrim : Text.trim (String.ofList t.text) = String.ofList t.text := by
    rw [Text.trim, String.toList_ofList, t.trimChars_text]
  have hlong : 19 ≤ t.text.length := by
    rw [t.length_text]
    omega
  have hwritten : ¬ (String.ofList t.text = "" ∨ String.ofList t.text = "..") := by
    intro hopen
    rw [← String.length_ofList] at hlong
    rcases hopen with heq | heq <;> rw [heq] at hlong <;> exact absurd hlong (by decide)
  unfold normalEnd
  dsimp only
  rw [htrim, if_neg hwritten]

/-- A date-time that is brought to universal time keeps its whole seconds. -/
theorem exists_of_normalEnd (hlibrary : library.ReadsMoments) (t : DateTime)
    (h : normalEnd library (String.ofList t.text) = .ok e) :
    ∃ c : Clock, c.isValid = true ∧ (c.seconds : Int) = t.seconds ∧
      (1000 ≤ c.date.year ↔ daysBeforeYear 1000 * 86400 ≤ c.seconds) ∧
      e = c.secondsText ++ "Z" := by
  rw [normalEnd_text, bind_eq_ok] at h
  obtain ⟨m, hread, h⟩ := h
  rw [bind_eq_ok] at h
  obtain ⟨c, hutc, h⟩ := h
  obtain ⟨hoffset, hinstant⟩ := hlibrary.instant t m hread
  obtain ⟨n, hn, hlimit, rfl⟩ := exists_of_toUtc hoffset hutc
  obtain ⟨hvalid, hseconds⟩ := seconds_ofMicros hlimit
  refine ⟨Clock.ofMicros n, hvalid, ?_, ?_, (Except.ok.inj h).symm⟩
  · rw [hseconds, ← hinstant, hn]
    rfl
  · rw [hseconds]
    exact le_year_ofMicros

/-- **An end in universal time** denotes the whole seconds of what it should, from the year 1000 on.
-/
theorem bound?_normalEnd (hlibrary : library.ReadsMoments) (h : end? cs = some a)
    (hok : normalEnd library (String.ofList cs) = .ok e) :
    '/' ∉ e.toList ∧ bound? (openEnd e) =
      if ∀ q ∈ a.toList, millennium ≤ q then some (a.map fun q => (⌊q⌋ : ℚ)) else none := by
  obtain ⟨rfl, rfl⟩ | ⟨rfl, rfl⟩ | ⟨t, rfl, rfl⟩ := end?_cases h
  · cases hok
    exact ⟨by decide, rfl⟩
  · cases hok
    exact ⟨by decide, rfl⟩
  · obtain ⟨c, hvalid, hseconds, hyear, rfl⟩ := exists_of_normalEnd hlibrary t hok
    refine ⟨slash_notMem_secondsText c, ?_⟩
    have hdots : c.secondsText ++ "Z" ≠ ".." := by
      intro heq
      have hzulu : 'Z' ∈ (c.secondsText ++ "Z").toList := by simp
      rw [heq] at hzulu
      exact absurd hzulu (by decide)
    have hmillennium :
        (∀ q ∈ (some ((t.seconds : ℚ) + t.part)).toList, millennium ≤ q) ↔ 1000 ≤ c.date.year := by
      rw [toList_some, forall_mem_singleton, hyear, millennium, ← Int.cast_natCast, ← Int.le_floor,
        t.floor_seconds, ← hseconds, Nat.cast_le]
    rw [openEnd, if_neg hdots, bound?, instant?_secondsText hvalid,
      if_congr hmillennium rfl rfl, map_some, t.floor_seconds, ← hseconds]
    split <;> rfl

/-! ### Both ends -/

theorem splitSlash_of_notMem {s : String} (h : '/' ∉ s.toList) : splitSlash s = none := by
  have hnone : s.toList.dropWhile (· != '/') = [] := dropWhile_eq_nil_iff.mpr (bne_of_notMem h)
  unfold splitSlash
  rw [hnone]

theorem splitSlash_of_append {s : String} {first last : List Char}
    (h : s.toList = first ++ '/' :: last) (hfirst : '/' ∉ first) :
    splitSlash s = some (String.ofList first, String.ofList last) := by
  obtain ⟨htake, hdrop⟩ := takeWhile_append_char hfirst
      (show ∀ c ∈ ('/' :: last).head?, c = '/' by simp)
  simp only [splitSlash, h, hdrop, htake]

theorem splitSlash_cases (s : String) :
    (splitSlash s = none ∧ '/' ∉ s.toList ∧ s.toList.splitOn '/' = [s.toList]) ∨
    (∃ first last, splitSlash s = some (String.ofList first, String.ofList last) ∧ '/' ∈ s.toList ∧
      s.toList.splitOn '/' = [first, last]) ∨
    ∃ first second third rest, s.toList.splitOn '/' = first :: second :: third :: rest := by
  by_cases hslash : '/' ∈ s.toList
  · obtain ⟨first, after, htext, hfirst⟩ := eq_append_cons_of_mem hslash
    have hsplit : s.toList.splitOn '/' = first :: after.splitOn '/' := by
      rw [htext, splitOn_append_cons_self_of_not_mem hfirst]
    by_cases hmore : '/' ∈ after
    · obtain ⟨second, behind, rfl, hsecond⟩ := eq_append_cons_of_mem hmore
      obtain ⟨third, rest, hrest⟩ := exists_cons_of_ne_nil (splitOn_ne_nil '/' behind)
      rw [splitOn_append_cons_self_of_not_mem hsecond, hrest] at hsplit
      exact .inr (.inr ⟨first, second, third, rest, hsplit⟩)
    · rw [splitOn_eq_singleton hmore] at hsplit
      exact .inr (.inl ⟨first, after, splitSlash_of_append htext hfirst, hslash, hsplit⟩)
  · exact .inl ⟨splitSlash_of_notMem hslash, hslash, splitOn_eq_singleton hslash⟩

/-- **The two ends of an interval**, as they are taken for a query and for universal time. A single
instant is both ends. -/
theorem exists_parts {s : String} {span : Option ℚ × Option ℚ} (hspan : span? s = some span) :
    ∃ first last, end? first = some span.1 ∧ end? last = some span.2 ∧
      (hasEmptyEnd s = true ↔ first = [] ∨ last = []) ∧
      bounds (.value (.str s)) = .ok ⟨openEnd (String.ofList first), openEnd (String.ofList last)⟩ ∧
      (splitSlash s = none ∧ s = String.ofList first ∧ first = last ∨
        splitSlash s = some (String.ofList first, String.ofList last)) := by
  unfold span? at hspan
  obtain ⟨hslash, -, hsplit⟩ | ⟨first, last, hslash, -, hsplit⟩ | ⟨_, _, _, _, hsplit⟩ :=
      splitSlash_cases s
  · rw [hsplit] at hspan
    obtain ⟨q, hq, heq⟩ := bind_eq_some_iff.mp hspan
    cases heq
    have hend := end?_of_instant? hq
    refine ⟨s.toList, s.toList, hend, hend, ?_, ?_, .inl ⟨hslash, String.ofList_toList.symm, rfl⟩⟩
    · rw [hasEmptyEnd, hsplit]
      simp
    · rw [bounds, hsplit]
      dsimp only
      rw [String.ofList_toList]
  · rw [hsplit] at hspan
    obtain ⟨start, hfirst, hspan⟩ := bind_eq_some_iff.mp hspan
    obtain ⟨stop, hlast, heq⟩ := bind_eq_some_iff.mp hspan
    cases heq
    refine ⟨first, last, hfirst, hlast, ?_, ?_, .inr hslash⟩
    · rw [hasEmptyEnd, hsplit]
      simp
    · rw [bounds, hsplit]
  · rw [hsplit] at hspan
    cases hspan

/-- An interval in the ways in which it is taken apart: as it is written, and for universal time. -/
structure Ends (library : Library) (s t : String) (span : Option ℚ × Option ℚ) where
  first : List Char
  last : List Char
  first_eq : end? first = some span.1
  last_eq : end? last = some span.2
  empty : hasEmptyEnd s = true ↔ first = [] ∨ last = []
  direct : bounds (.value (.str s)) =
    .ok ⟨openEnd (String.ofList first), openEnd (String.ofList last)⟩
  utcFirst : String
  utcLast : String
  utcFirst_eq : normalEnd library (String.ofList first) = .ok utcFirst
  utcLast_eq : normalEnd library (String.ofList last) = .ok utcLast
  utc : t = utcFirst ++ "/" ++ utcLast

/-- An interval that is brought to universal time has two ends, which are the same if it is a single
instant. -/
theorem exists_ends {s t : String} {span : Option ℚ × Option ℚ} (hspan : span? s = some span)
    (haccepted : normalRange library (.str s) = .ok t) : Nonempty (Ends library s t span) := by
  obtain ⟨first, last, hfirst, hlast, hempty, hdirect, hslash⟩ := exists_parts hspan
  unfold normalRange at haccepted
  dsimp only at haccepted
  obtain ⟨hslash, rfl, rfl⟩ | hslash := hslash
  · rw [hslash] at haccepted
    obtain ⟨e, he, ht⟩ := bind_eq_ok.mp haccepted
    exact ⟨⟨first, first, hfirst, hlast, hempty, hdirect, e, e, he, he, (Except.ok.inj ht).symm⟩⟩
  · rw [hslash] at haccepted
    obtain ⟨e, he, haccepted⟩ := bind_eq_ok.mp haccepted
    obtain ⟨e', he', ht⟩ := bind_eq_ok.mp haccepted
    exact ⟨⟨first, last, hfirst, hlast, hempty, hdirect, e, e', he, he', (Except.ok.inj ht).symm⟩⟩

namespace Ends

variable {s t : String} {span : Option ℚ × Option ℚ} (ends : Ends library s t span)

theorem span?_direct :
    Bounds.span? ⟨openEnd (String.ofList ends.first), openEnd (String.ofList ends.last)⟩ =
      if hasEmptyEnd s then none else some span := by
  rw [Bounds.span?, bound?_openEnd ends.first_eq, bound?_openEnd ends.last_eq]
  simp only [ends.empty]
  by_cases hfirst : ends.first = [] <;> by_cases hlast : ends.last = [] <;> simp [hfirst, hlast]

/-- The ends in universal time denote the whole seconds of the interval, from the year 1000 on. -/
theorem span?_utc (hlibrary : library.ReadsMoments) :
    Bounds.span? ⟨openEnd ends.utcFirst, openEnd ends.utcLast⟩ =
      if ∀ q ∈ instants span, millennium ≤ q then
        some (span.1.map fun q => (⌊q⌋ : ℚ), span.2.map fun q => (⌊q⌋ : ℚ)) else none := by
  rw [Bounds.span?, (bound?_normalEnd hlibrary ends.first_eq ends.utcFirst_eq).2,
    (bound?_normalEnd hlibrary ends.last_eq ends.utcLast_eq).2]
  simp only [instants, forall_mem_append]
  split_ifs <;> simp_all

theorem bounds_utc (hlibrary : library.ReadsMoments) :
    bounds (.value (.str t)) = .ok ⟨openEnd ends.utcFirst, openEnd ends.utcLast⟩ := by
  have hfirst := (bound?_normalEnd hlibrary ends.first_eq ends.utcFirst_eq).1
  have hlast := (bound?_normalEnd hlibrary ends.last_eq ends.utcLast_eq).1
  have htext : t.toList = ends.utcFirst.toList ++ '/' :: ends.utcLast.toList := by
    refine (congrArg String.toList ends.utc).trans ?_
    rw [String.toList_append, String.toList_append, append_assoc]
    rfl
  have hsplit : t.toList.splitOn '/' = [ends.utcFirst.toList, ends.utcLast.toList] := by
    rw [htext, splitOn_append_cons_self_of_not_mem hfirst, splitOn_eq_singleton hlast]
  rw [bounds, hsplit]
  dsimp only
  rw [String.ofList_toList, String.ofList_toList]

end Ends

theorem map_floor_eq_iff (a : Option ℚ) :
    (a.map fun q => (⌊q⌋ : ℚ)) = a ↔ ∀ q ∈ a.toList, (⌊q⌋ : ℚ) = q := by
  cases a <;> simp

/-- **An interval denotes the same as it is written and in universal time** exactly if no end is
left empty and every instant is a whole second from the year 1000 on. An empty end is no instant
where the ends are taken as they are written; universal time drops the fractions, and writes an
earlier year with less than four digits. -/
theorem normalRange_denotes_alike_iff (hlibrary : library.ReadsMoments) {s t : String}
    {span : Option ℚ × Option ℚ} (hspan : span? s = some span)
    (haccepted : normalRange library (.str s) = .ok t) :
    ∃ direct utc : Bounds, bounds (.value (.str s)) = .ok direct ∧
      bounds (.value (.str t)) = .ok utc ∧
      direct.span? = (if hasEmptyEnd s then none else some span) ∧
      utc.span? =
        (if ∀ q ∈ instants span, millennium ≤ q then
            some (span.1.map fun q => (⌊q⌋ : ℚ), span.2.map fun q => (⌊q⌋ : ℚ)) else none) ∧
      ((∃ shared, direct.span? = some shared ∧ utc.span? = some shared) ↔
        hasEmptyEnd s = false ∧ ∀ q ∈ instants span, millennium ≤ q ∧ (⌊q⌋ : ℚ) = q) := by
  obtain ⟨ends⟩ := exists_ends hspan haccepted
  refine ⟨_, _, ends.direct, ends.bounds_utc hlibrary, ends.span?_direct,
    ends.span?_utc hlibrary, ?_⟩
  rw [ends.span?_direct, ends.span?_utc hlibrary]
  have hwhole : (span.1.map (fun q => (⌊q⌋ : ℚ)), span.2.map fun q => (⌊q⌋ : ℚ)) = span ↔
      ∀ q ∈ instants span, (⌊q⌋ : ℚ) = q := by
    rw [instants, List.forall_mem_append, ← map_floor_eq_iff, ← map_floor_eq_iff, Prod.ext_iff]
  rw [forall₂_and, ← hwhole]
  cases hempty : hasEmptyEnd s with
  | true => simp
  | false =>
    rw [if_neg Bool.false_ne_true]
    constructor
    · intro ⟨shared, hdirect, hutc⟩
      obtain ⟨hlate, heq⟩ := Option.ite_none_right_eq_some.mp hutc
      cases hdirect
      exact ⟨rfl, hlate, Option.some.inj heq⟩
    · intro ⟨_, hlate, heq⟩
      exact ⟨span, rfl, by rw [if_pos hlate, heq]⟩

/-- An interval with an offset and an open end denotes the same in universal time. One whose first
end is left empty does not, and neither does an instant with a fraction of a second. -/
theorem normalRange_denotes_alike_iff_three :
    (span? "2020-02-12T12:30:22+02:00/.." = some (some 63717100222, none) ∧
      normalRange .plain (.str "2020-02-12T12:30:22+02:00/..") = .ok "2020-02-12T10:30:22Z/.." ∧
        ∃ direct utc : Bounds, bounds (.value (.str "2020-02-12T12:30:22+02:00/..")) = .ok direct ∧
          bounds (.value (.str "2020-02-12T10:30:22Z/..")) = .ok utc ∧
            ∃ shared, direct.span? = some shared ∧ utc.span? = some shared) ∧
    (span? "/2020-02-01T00:00:00Z" = some (none, some 63716112000) ∧
      normalRange .plain (.str "/2020-02-01T00:00:00Z") = .ok "../2020-02-01T00:00:00Z" ∧
        ∃ direct utc : Bounds, bounds (.value (.str "/2020-02-01T00:00:00Z")) = .ok direct ∧
          bounds (.value (.str "../2020-02-01T00:00:00Z")) = .ok utc ∧ direct.span? = none ∧
            utc.span? = some (none, some 63716112000)) ∧
    (span? "2020-02-12T10:30:22.5Z/.." = some (some (63717100222 + 1 / 2), none) ∧
      normalRange .plain (.str "2020-02-12T10:30:22.5Z/..") = .ok "2020-02-12T10:30:22Z/.." ∧
        ∃ direct utc : Bounds, bounds (.value (.str "2020-02-12T10:30:22.5Z/..")) = .ok direct ∧
          bounds (.value (.str "2020-02-12T10:30:22Z/..")) = .ok utc ∧
            direct.span? = some (some (63717100222 + 1 / 2), none) ∧
              utc.span? = some (some 63717100222, none)) := by
  have hopen : span? "2020-02-12T12:30:22+02:00/.." =
      some (some 63717100222, none) := by decide +kernel
  have hopen' : normalRange .plain (.str "2020-02-12T12:30:22+02:00/..") =
      .ok "2020-02-12T10:30:22Z/.." := by decide +kernel
  have hempty : span? "/2020-02-01T00:00:00Z" = some (none, some 63716112000) := by decide +kernel
  have hempty' : normalRange .plain (.str "/2020-02-01T00:00:00Z") =
      .ok "../2020-02-01T00:00:00Z" := by decide +kernel
  have hhalf : span? "2020-02-12T10:30:22.5Z/.." =
      some (some (63717100222 + 1 / 2), none) := by decide +kernel
  have hhalf' : normalRange .plain (.str "2020-02-12T10:30:22.5Z/..") =
      .ok "2020-02-12T10:30:22Z/.." := by decide +kernel
  obtain ⟨direct₁, utc₁, hdirect₁, hutc₁, -, -, halike⟩ :=
      normalRange_denotes_alike_iff Library.readsMoments_plain hopen hopen'
  obtain ⟨direct₂, utc₂, hdirect₂, hutc₂, hspan₂, hspan₂', -⟩ :=
      normalRange_denotes_alike_iff Library.readsMoments_plain hempty hempty'
  obtain ⟨direct₃, utc₃, hdirect₃, hutc₃, hspan₃, hspan₃', -⟩ :=
      normalRange_denotes_alike_iff Library.readsMoments_plain hhalf hhalf'
  refine ⟨⟨hopen, hopen', direct₁, utc₁, hdirect₁, hutc₁, halike.mpr (by decide +kernel)⟩,
    ⟨hempty, hempty', direct₂, utc₂, hdirect₂, hutc₂, hspan₂.trans (by decide +kernel),
      hspan₂'.trans (by decide +kernel)⟩,
    hhalf, hhalf', direct₃, utc₃, hdirect₃, hutc₃, hspan₃.trans (by decide +kernel),
      hspan₃'.trans (by decide +kernel)⟩

end StacCatalog.Time
