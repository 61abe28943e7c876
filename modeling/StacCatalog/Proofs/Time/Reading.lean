import StacCatalog.Library.Plain
import StacCatalog.Proofs.Time.Rfc3339
import StacCatalog.Time.Interval

/-!
# Reading date-times
-/

namespace StacCatalog

namespace Time

open Rfc3339 List

variable {c : Char} {m : Moment}

/-! ### Bytes -/

def bytesOf (cs : List Char) : Bytes :=
  (cs.map Char.toNat).toArray

theorem utf8_eq_bytesOf {cs : List Char} (h : ∀ c ∈ cs, c.toNat < 128) :
    (Text.utf8 (String.ofList cs)).toArray = bytesOf cs := by
  unfold Text.utf8 bytesOf
  rw [String.toList_ofList, map_eq_flatMap]
  congr 1
  refine flatMap_congr fun c hc => ?_
  unfold Text.utf8Char
  rw [if_pos (h c hc)]

variable {cs ds rest : List Char} {start : Nat}

@[simp] theorem size_bytesOf : (bytesOf cs).size = cs.length := by
  simp [bytesOf]

theorem at_bytesOf (i : Nat) : (bytesOf cs).at i = (cs[i]?.map Char.toNat).getD 0 := by
  simp [bytesOf, Bytes.at, Array.getD_eq_getD_getElem?]

theorem at_of_drop (h : cs.drop start = c :: rest) : (bytesOf cs).at start = c.toNat := by
  have hget : cs[start]? = some c := by
    rw [← head?_drop, h, head?_cons]
  rw [at_bytesOf, hget]
  rfl

theorem map_at_of_drop (h : cs.drop start = ds ++ rest) :
    (range ds.length).map (fun i => (bytesOf cs).at (start + i)) = ds.map Char.toNat := by
  refine ext_getElem (by simp) fun i hi _ => ?_
  have hlt : i < ds.length := by simpa using hi
  have hget : cs[start + i]? = some ds[i] := by
    rw [← getElem?_drop, h, getElem?_append_left hlt, getElem?_eq_getElem hlt]
  simp [at_bytesOf, hget]

theorem isDigitByte_toNat (c : Char) : isDigitByte c.toNat = c.isDigit := by
  rw [Bool.eq_iff_iff, Char.isDigit_iff_toNat, isDigitByte, Bool.and_eq_true, decide_eq_true_eq,
    decide_eq_true_eq]
  rfl

/-- **A number** is read as in the grammar. -/
theorem number?_of_drop (h : cs.drop start = ds ++ rest) :
    (bytesOf cs).number? start ds.length = number? ds := by
  have hall : (ds.map Char.toNat).all isDigitByte = ds.all Char.isDigit := by
    rw [all_map]
    exact congrArg ds.all (funext isDigitByte_toNat)
  have hvalue : (ds.map Char.toNat).foldl (fun n d => n * 10 + (d - 48)) 0 =
      Nat.ofDigitChars 10 ds 0 := by
    rw [foldl_map, Nat.ofDigitChars_eq_foldl]
    congr 1
    funext n c
    rw [Nat.mul_comm]
    rfl
  unfold Bytes.number? number?
  dsimp only
  rw [map_at_of_drop h, hall, hvalue]

theorem two_of_drop {c₁ c₀ : Char} {n : Nat} (h : cs.drop start = c₁ :: c₀ :: rest)
    (hn : number? [c₁, c₀] = some n) : (bytesOf cs).number? start 2 = some n :=
  (number?_of_drop (show cs.drop start = [c₁, c₀] ++ rest from h)).trans hn

/-- A stretch of a text that ends before its end or before the first character that is not of a
class. -/
theorem takeWhile_at_of_drop (p : Nat → Bool) (h : cs.drop start = ds ++ rest)
    (hds : ∀ c ∈ ds, p c.toNat = true) (hrest : ∀ c, rest.head? = some c → p c.toNat = false) :
    (((range (cs.length - start)).map fun i => (bytesOf cs).at (start + i)).takeWhile p).length =
      ds.length := by
  have hwhole : cs.drop start = (ds ++ rest) ++ [] := by rw [h, append_nil]
  have hlength : cs.length - start = (ds ++ rest).length := by rw [← length_drop, h]
  rw [hlength, map_at_of_drop hwhole, map_append, takeWhile_append_of_pos (by simpa using hds)]
  cases rest with
  | nil => simp
  | cons c rest => simp [hrest c rfl]

theorem toNat_of_isDigit (h : c.isDigit = true) : 48 ≤ c.toNat ∧ c.toNat ≤ 57 :=
  Char.isDigit_iff_toNat.mp h

theorem isDigit_of_number? {n : Nat} (h : number? ds = some n) : ∀ c ∈ ds, c.isDigit = true :=
  all_eq_true.mp (number?_eq_some.mp h).1

theorem chars_of_date? {day : Date} (h : date? ds = some day) :
    ds.length = 10 ∧ ∀ c ∈ ds, c.isDigit = true ∨ c = '-' := by
  obtain ⟨y₃, y₂, y₁, y₀, m₁, m₀, d₁, d₀, rfl, hyear, hmonth, hday, -⟩ := exists_of_date? h
  have hdigits := isDigit_of_number? hyear
  have hdigits' := isDigit_of_number? hmonth
  have hdigits'' := isDigit_of_number? hday
  exact ⟨rfl, by grind⟩

/-- **A date** is found in the first ten bytes. -/
theorem readDate?_bytesOf {day : Date} (h : date? ds = some day) :
    dateEnd (bytesOf (ds ++ rest)) = 10 ∧ readDate? (bytesOf (ds ++ rest)) 10 = some day := by
  obtain ⟨y₃, y₂, y₁, y₀, m₁, m₀, d₁, d₀, rfl, hyear, hmonth, hday, -⟩ := exists_of_date? h
  set cs := [y₃, y₂, y₁, y₀, '-', m₁, m₀, '-', d₁, d₀] ++ rest with hcs
  have hdash : (bytesOf cs).at 4 = 45 := at_of_drop (c := '-') rfl
  have hdash' : (bytesOf cs).at 7 = 45 := at_of_drop (c := '-') rfl
  have hletter : (bytesOf cs).at 5 ≠ 87 := by
    rw [show (bytesOf cs).at 5 = m₁.toNat from at_of_drop rfl]
    have hdigit := toNat_of_isDigit (isDigit_of_number? hmonth m₁ mem_cons_self)
    omega
  have hsize : cs.length ≠ 7 := by
    simp [hcs]
  have hyear' : (bytesOf cs).number? 0 4 = some day.year :=
    (number?_of_drop (show cs.drop 0 = [y₃, y₂, y₁, y₀] ++ cs.drop 4 from rfl)).trans hyear
  have hmonth' : (bytesOf cs).number? 5 2 = some day.month := two_of_drop rfl hmonth
  have hday' : (bytesOf cs).number? 8 2 = some day.day := two_of_drop rfl hday
  constructor
  · simp [dateEnd, hsize, hdash, hletter]
  · simp [readDate?, hyear', hdash, hletter, hmonth', hdash', hday']

/-! ### Times of day -/

section Follow

variable {b : Bytes} {next stop : Nat}

theorem follow_done (colons : Bool) (h : stop ≤ next + 1) :
    follow b next stop colons = .done (b.at next != 0) :=
  if_pos h

theorem follow_part (h : next + 1 < stop) (hcolon : b.at next = 58) :
    follow b next stop true = .part (next + 1) := by
  unfold follow
  rw [if_neg (by omega), hcolon]
  rfl

theorem follow_fraction (h : next + 1 < stop) (hpoint : b.at next = 46) :
    follow b next stop true = .fraction (next + 1) := by
  unfold follow
  rw [if_neg (by omega), hpoint]
  rfl

end Follow

theorem chars_of_time? {hour minute second : Nat} (h : time? ds = some (hour, minute, second)) :
    ds.length = 8 ∧ ∀ c ∈ ds, c.isDigit = true ∨ c = ':' := by
  obtain ⟨h₁, h₀, m₁, m₀, s₁, s₀, rfl, hhour, hminute, hsecond, -⟩ := exists_of_time? h
  have hdigits := isDigit_of_number? hhour
  have hdigits' := isDigit_of_number? hminute
  have hdigits'' := isDigit_of_number? hsecond
  exact ⟨rfl, by grind⟩

/-- **A time of day** is found up to the seconds; nothing or a fraction follows. -/
theorem readTime?_bytesOf {hour minute second : Nat} (stop : Nat)
    (h : time? ds = some (hour, minute, second)) (hdrop : cs.drop start = ds ++ rest) :
    (start + 8 ≤ stop → stop ≤ start + 9 →
      readTime? (bytesOf cs) start stop =
        some ⟨hour, minute, second, 0, (bytesOf cs).at (start + 8) != 0⟩) ∧
    (start + 9 < stop → (bytesOf cs).at (start + 8) = 46 →
      readTime? (bytesOf cs) start stop =
        (readFraction? (bytesOf cs) (start + 9) stop).map
          fun (micro, left) => ⟨hour, minute, second, micro, left⟩) := by
  obtain ⟨h₁, h₀, m₁, m₀, s₁, s₀, rfl, hhour, hminute, hsecond, -⟩ := exists_of_time? h
  have hhour' : (bytesOf cs).number? start 2 = some hour := two_of_drop hdrop hhour
  have hskip (k : Nat) : cs.drop (start + k) =
      ([h₁, h₀, ':', m₁, m₀, ':', s₁, s₀] ++ rest).drop k := by
    rw [← hdrop, drop_drop]
  have hcolon : (bytesOf cs).at (start + 2) = 58 := at_of_drop (c := ':') (hskip 2)
  have hminute' : (bytesOf cs).number? (start + 3) 2 = some minute := two_of_drop (hskip 3) hminute
  have hcolon' : (bytesOf cs).at (start + 5) = 58 := at_of_drop (c := ':') (hskip 5)
  have hsecond' : (bytesOf cs).number? (start + 6) 2 = some second := two_of_drop (hskip 6) hsecond
  constructor
  · intro hstop hend
    simp only [readTime?, hhour', hcolon, follow_part (show start + 2 + 1 < stop by omega) hcolon,
      hminute', hsecond', follow_part (show start + 5 + 1 < stop by omega) hcolon', follow_done true
      (show stop ≤ start + 8 + 1 from hend), Option.bind_eq_bind, Option.bind_some,
      beq_self_eq_true]
  · intro hstop hpoint
    simp only [readTime?, hhour', hcolon, follow_part (show start + 2 + 1 < stop by omega) hcolon,
      hminute', hsecond', follow_part (show start + 5 + 1 < stop by omega) hcolon', follow_fraction
      (show start + 8 + 1 < stop from hstop) hpoint, Option.bind_eq_bind, Option.bind_some,
      beq_self_eq_true, Option.map_eq_bind]
    rfl

/-- **A fraction** counts up to its sixth digit. -/
theorem readFraction?_bytesOf (h : ds.all Char.isDigit = true)
    (hdrop : cs.drop start = ds ++ rest) :
    ∃ micro left, micro < 1000000 ∧ (ds.length = 6 → number? ds = some micro) ∧
      readFraction? (bytesOf cs) start (start + ds.length) = some (micro, left) := by
  have hfirst : (ds.take 6).all Char.isDigit = true := by
    rw [all_eq_true] at h ⊢
    exact fun c hc => h c (mem_of_mem_take hc)
  have hdrop' : cs.drop start = ds.take 6 ++ (ds.drop 6 ++ rest) := by
    rw [hdrop, ← append_assoc, take_append_drop]
  have hnumber := (number?_of_drop hdrop').trans (number?_eq_some.mpr ⟨hfirst, rfl⟩)
  have hlength : (ds.take 6).length ≤ 6 := length_take_le 6 ds
  have hbound : Nat.ofDigitChars 10 (ds.take 6) 0 * Nat.pow 10 (6 - (ds.take 6).length) < 1000000 :=
    calc Nat.ofDigitChars 10 (ds.take 6) 0 * 10 ^ (6 - (ds.take 6).length)
        < 10 ^ (ds.take 6).length * 10 ^ (6 - (ds.take 6).length) :=
          Nat.mul_lt_mul_of_pos_right (ofDigitChars_lt hfirst) (by positivity)
      _ = 1000000 := by rw [← Nat.pow_add, Nat.add_sub_cancel' hlength]
  have hsix (hds : ds.length = 6) : number? ds =
      some (Nat.ofDigitChars 10 (ds.take 6) 0 * Nat.pow 10 (6 - (ds.take 6).length)) := by
    rw [take_of_length_le hds.le, hds]
    exact number?_eq_some.mpr ⟨h, (Nat.mul_one _).symm⟩
  unfold readFraction?
  dsimp only
  rw [Nat.add_sub_cancel_left, ← length_take, hnumber]
  exact ⟨_, _, hbound, hsix, rfl⟩

theorem readFraction?_leftOver {micro : Nat} {left : Bool} (h : ds.all Char.isDigit = true)
    (hdrop : cs.drop start = ds ++ ['z'])
    (hread : readFraction? (bytesOf cs) start cs.length = some (micro, left)) : left = true := by
  have hstop : cs.length - start = ds.length + 1 := by
    rw [← length_drop, hdrop, length_append, length_singleton]
  unfold readFraction? at hread
  simp only [hstop, Option.bind_eq_bind, Option.bind_eq_some_iff, Option.some.injEq,
    Prod.mk.injEq] at hread
  obtain ⟨n, hn, -, hleft⟩ := hread
  by_cases hshort : ds.length < 6
  · -- The letter is among the characters that have to be digits.
    have hcount : min 6 (ds.length + 1) = (ds ++ ['z']).length := by
      rw [length_append, length_singleton]
      omega
    rw [hcount, number?_of_drop (hdrop.trans (append_nil _).symm)] at hn
    have hletter := (number?_eq_some.mp hn).1
    rw [all_append] at hletter
    simp at hletter
  · -- The letter is what the digits leave over.
    have hcount : min 6 (ds.length + 1) = 6 := by omega
    have hdrop' : cs.drop (start + 6) = ds.drop 6 ++ ['z'] := by
      rw [← drop_drop, hdrop, drop_append_of_le_length (by omega)]
    have hskip : (bytesOf cs).digitCount (start + 6) = (ds.drop 6).length := by
      unfold Bytes.digitCount
      rw [size_bytesOf]
      refine takeWhile_at_of_drop isDigitByte hdrop' ?_ ?_
      · intro c hc
        rw [isDigitByte_toNat]
        exact all_eq_true.mp h c (mem_of_mem_drop hc)
      · intro c hc
        cases hc
        rfl
    have hlast : (bytesOf cs).at (start + 6 + (ds.drop 6).length) = 122 := by
      have hletter : cs.drop (start + 6 + (ds.drop 6).length) = ['z'] := by
        rw [← drop_drop, hdrop', drop_left]
      exact at_of_drop hletter
    rw [hcount, hskip, hlast] at hleft
    exact hleft.symm

/-! ### Offsets -/

theorem readTime?_zone {sign h₁ h₀ m₁ m₀ : Char} {hours minutes : Nat}
    (hhours : number? [h₁, h₀] = some hours) (hminutes : number? [m₁, m₀] = some minutes)
    (hdrop : cs.drop start = [sign, h₁, h₀, ':', m₁, m₀]) :
    readTime? (bytesOf cs) (start + 1) (bytesOf cs).size = some ⟨hours, minutes, 0, 0, false⟩ := by
  have hskip (k : Nat) : cs.drop (start + k) = [sign, h₁, h₀, ':', m₁, m₀].drop k := by
    rw [← hdrop, drop_drop]
  have hhours' : (bytesOf cs).number? (start + 1) 2 = some hours := two_of_drop (hskip 1) hhours
  have hcolon : (bytesOf cs).at (start + 3) = 58 := at_of_drop (c := ':') (hskip 3)
  have hminutes' : (bytesOf cs).number? (start + 4) 2 = some minutes :=
      two_of_drop (hskip 4) hminutes
  have hsize : cs.length = start + 6 := by
    have hrest : cs.length - start = 6 := by
      rw [← length_drop, hdrop]
      rfl
    omega
  have hend : (bytesOf cs).at (start + 6) = 0 := by
    rw [at_bytesOf, getElem?_eq_none (by omega)]
    rfl
  simp [readTime?, follow, hhours', hminutes', hcolon, hend, hsize]

/-- **An offset** behind its sign is a time of day. -/
theorem readOffset?_of_readTime? {sign : Char} {hours minutes second seconds : Nat} {offset : Int}
    (hfirst : (bytesOf cs).at start = sign.toNat)
    (htime : readTime? (bytesOf cs) (start + 1) (bytesOf cs).size =
      some ⟨hours, minutes, second, 0, false⟩)
    (hseconds : (hours * 60 + minutes) * 60 + second = seconds) (hday : seconds < 86400)
    (hsign : sign = '+' ∧ offset = seconds ∨ sign = '-' ∧ offset = -seconds) :
    readOffset? (bytesOf cs) start = some (offset * 1000000) := by
  have hzulu : ((bytesOf cs).at start == 90) = false := by
    rcases hsign with ⟨rfl, -⟩ | ⟨rfl, -⟩ <;> rw [hfirst] <;> rfl
  have hsigned : (if (bytesOf cs).at start == 45 then -((seconds * 1000000 : Nat) : Int)
      else (seconds * 1000000 : Nat)) = offset * 1000000 := by
    rcases hsign with ⟨rfl, rfl⟩ | ⟨rfl, rfl⟩
    · rw [hfirst, if_neg (by decide), Int.natCast_mul]
      rfl
    · rw [hfirst, if_pos (by decide), Int.natCast_mul, Int.neg_mul]
      rfl
  have hbound : (offset * 1000000).natAbs < dayMicros := by
    unfold dayMicros
    omega
  unfold readOffset?
  rw [hzulu, if_neg Bool.false_ne_true, htime, Option.bind_eq_bind, Option.bind_some,
    if_neg Bool.false_ne_true]
  dsimp only
  rw [hseconds, Nat.add_zero, hsigned, if_pos hbound]
  split
  · have hzero : offset = 0 := by omega
    rw [hzero]
    rfl
  · rfl

theorem readOffset?_bytesOf {offset : Int} (h : zone? ds = some offset) (hlength : ds.length = 6)
    (hdrop : cs.drop start = ds) : readOffset? (bytesOf cs) start = some (offset * 1000000) := by
  obtain ⟨rfl, -⟩ | rfl | ⟨sign, h₁, h₀, m₁, m₀, hours, minutes, rfl, hhours, hminutes, hday, hhour,
      hsign⟩ := zone?_cases h
  · cases hlength
  · cases hlength
  · exact readOffset?_of_readTime? (at_of_drop hdrop) (readTime?_zone hhours hminutes hdrop) rfl
      (by omega) hsign

/-- The reader looks for the offset at a sign or a `Z`. -/
theorem offsetStart_of_drop (h : cs.drop start = ds ++ rest)
    (hds : ∀ c ∈ ds, c.isDigit = true ∨ c ∈ [':', '.', 'z'])
    (hrest : ∀ c, rest.head? = some c → c ∈ ['+', '-', 'Z']) :
    offsetStart (bytesOf cs) start = start + ds.length := by
  unfold offsetStart
  dsimp only
  rw [size_bytesOf, takeWhile_at_of_drop (fun c => c != 43 && c != 45 && c != 90) h]
  · intro c hc
    rcases hds c hc with hdigit | hother
    · have hrange := toNat_of_isDigit hdigit
      simp
      omega
    · simp only [mem_cons, not_mem_nil, or_false] at hother
      rcases hother with rfl | rfl | rfl <;> rfl
  · intro c hc
    have hsign := hrest c hc
    simp only [mem_cons, not_mem_nil, or_false] at hsign
    rcases hsign with rfl | rfl | rfl <;> rfl

/-- What is read behind the date and one more character, if the offset is found at `zone`. -/
def readRest? (day : Date) (b : Bytes) (zone : Nat) : Option Moment :=
  (readTime? b 11 zone).bind fun time =>
    (if zone < b.size then (readOffset? b zone).map some else if time.leftOver then none
      else some none).bind fun offset =>
      if (Clock.mk day time.hour time.minute time.second time.micro).isValid then
        some ⟨⟨day, time.hour, time.minute, time.second, time.micro⟩, offset⟩ else none

theorem readMoment?_date {day : Date} {divider : Char} {zone : Nat} (hdate : date? ds = some day)
    (hdivider : divider = 'T' ∨ divider = 't') (hascii : ∀ c ∈ ds ++ divider :: rest, c.toNat < 128)
    (h : offsetStart (bytesOf (ds ++ divider :: rest)) 11 = zone) :
    readMoment? (String.ofList (ds ++ divider :: rest)) =
      readRest? day (bytesOf (ds ++ divider :: rest)) zone := by
  have hten := (chars_of_date? hdate).1
  obtain ⟨hend, hread⟩ : dateEnd (bytesOf (ds ++ divider :: rest)) = 10 ∧ _ :=
      readDate?_bytesOf hdate
  have hletter : sequenceSize ((bytesOf (ds ++ divider :: rest)).at 10) = 1 := by
    rw [at_of_drop (hten ▸ drop_left)]
    rcases hdivider with rfl | rfl <;> rfl
  have hlength : (ds ++ divider :: rest).length = 11 + rest.length := by
    rw [length_append, length_cons, hten]
    omega
  simp only [readMoment?, readRest?, utf8_eq_bytesOf hascii, hend, hread, hletter, size_bytesOf,
    String.length_ofList, if_true, if_false,
    show ¬ (ds ++ divider ::
      rest).length < 7 by omega, show 10 < (ds ++ divider :: rest).length by omega,
    Option.bind_eq_bind, Option.bind_some, Option.bind_none, Nat.reduceAdd, h]
  refine Option.bind_congr fun time _ => ?_
  split_ifs <;> simp [Option.bind_map]

/-- No character of a date-time is beyond ASCII or blank, and none divides an interval. -/
theorem plain_of_letters (h : c.isDigit = true ∨ c ∈ ['-', 'T', 't', ':', '.', '+', 'Z', 'z']) :
    c.toNat < 128 ∧ Text.isBlank c = false ∧ c ≠ '/' := by
  rcases h with hdigit | hletter
  · obtain ⟨hlow, hhigh⟩ := toNat_of_isDigit hdigit
    refine ⟨by omega, ?_, ?_⟩
    · simp [Text.isBlank, Text.Ranges.has, Text.blanks]
      omega
    · intro hslash
      rw [hslash] at hlow
      exact absurd hlow (by decide)
  · simp only [mem_cons, not_mem_nil, or_false] at hletter
    rcases hletter with rfl | rfl | rfl | rfl | rfl | rfl | rfl | rfl <;> decide

section Parts

variable {date time fraction zone : List Char} {day : Date} {hour minute second : Nat} {part : ℚ}
    {divider : Char} {offset : Int}

theorem chars_of_fraction? (h : fraction? fraction = some part) :
    ∀ c ∈ fraction, c.isDigit = true ∨ c = '.' := by
  obtain ⟨rfl, -⟩ | ⟨digits, rfl, -, hall, -⟩ := fraction?_cases h
  · nofun
  · exact fun c hc => (mem_cons.mp hc).symm.imp_left (all_eq_true.mp hall c)

/-- Whether a fraction of a second is read as so many microseconds, as far as no digits are cut off.
-/
def Counts (fraction : List Char) (micro : Nat) : Prop :=
  (fraction = [] → micro = 0) ∧ ∀ digits, fraction = '.' :: digits → digits.length = 6 →
    number? digits = some micro

theorem exists_readTime? (htime : time? time = some (hour, minute, second))
    (hfraction : fraction? fraction = some part)
    (hdrop : cs.drop start = time ++ (fraction ++ zone)) :
    ∃ micro left, micro < 1000000 ∧ Counts fraction micro ∧
      readTime? (bytesOf cs) start (start + (time ++ fraction).length) =
        some ⟨hour, minute, second, micro, left⟩ := by
  have height := (chars_of_time? htime).1
  rw [length_append, height]
  obtain ⟨hwhole, hpart⟩ := readTime?_bytesOf (start + (8 + fraction.length)) htime hdrop
  obtain ⟨rfl, -⟩ | ⟨digits, rfl, hdigits, hall, -⟩ := fraction?_cases hfraction
  · exact ⟨0, _, by decide, ⟨fun _ => rfl, nofun⟩, hwhole (Nat.le_refl _) (by simp)⟩
  · have hpoint : cs.drop (start + 8) = '.' :: (digits ++ zone) := by
      rw [← drop_drop, hdrop, drop_left' height]
      rfl
    have hrest : cs.drop (start + 9) = digits ++ zone := by
      rw [show start + 9 = start + 8 + 1 from rfl, ← drop_drop, hpoint]
      rfl
    obtain ⟨micro, left, hmicro, hnumber, hread⟩ := readFraction?_bytesOf hall hrest
    have hpos := length_pos_of_ne_nil hdigits
    have hstop : start + (8 + ('.' :: digits).length) = start + 9 + digits.length := by
      rw [length_cons]
      omega
    rw [hstop] at hpart ⊢
    refine ⟨micro, left, hmicro, ⟨nofun, fun _ hsame hsix => ?_⟩, ?_⟩
    · obtain ⟨-, rfl⟩ := cons.inj hsame
      exact hnumber hsix
    · rw [hpart (by omega) (at_of_drop hpoint), hread]
      rfl

/-- **A moment is read** part by part if its offset can be read. -/
theorem exists_readMoment? (hdate : date? date = some day)
    (hdivider : divider = 'T' ∨ divider = 't') (htime : time? time = some (hour, minute, second))
    (hfraction : fraction? fraction = some part)
    (hzone : ∃ sign ∈ ['+', '-', 'Z'], zone.head? = some sign) (hascii : ∀ c ∈ zone, c.toNat < 128)
    (hoffset : ∀ cs start, cs.drop start = zone → readOffset? (bytesOf cs) start = some offset) :
    ∃ micro < 1000000, Counts fraction micro ∧
      readMoment? (String.ofList (date ++ divider :: (time ++ (fraction ++ zone)))) =
        if (Clock.mk day hour minute second micro).isValid then
            some ⟨⟨day, hour, minute, second, micro⟩, some offset⟩ else none := by
  have hplain : ∀ c ∈ date ++ divider :: (time ++ (fraction ++ zone)), c.toNat < 128 := by
    intro c hc
    simp only [mem_append, mem_cons] at hc
    rcases hc with hc | rfl | hc | hc | hc
    · exact (plain_of_letters (((chars_of_date? hdate).2 c hc).imp_right (by simp_all))).1
    · exact (plain_of_letters (.inr (by grind))).1
    · exact (plain_of_letters (((chars_of_time? htime).2 c hc).imp_right (by simp_all))).1
    · exact (plain_of_letters ((chars_of_fraction? hfraction c hc).imp_right (by simp_all))).1
    · exact hascii c hc
  obtain ⟨cs, hcs⟩ : ∃ cs, date ++ divider :: (time ++ (fraction ++ zone)) = cs := ⟨_, rfl⟩
  have hdrop : cs.drop 11 = (time ++ fraction) ++ zone := by
    rw [← hcs, show 11 = 10 + 1 from rfl, ← drop_drop, drop_left' (chars_of_date? hdate).1,
      append_assoc]
    rfl
  -- The search for the zone stops at its sign, since none comes before it.
  have hstart : offsetStart (bytesOf cs) 11 = 11 + (time ++ fraction).length := by
    refine offsetStart_of_drop hdrop ?_ ?_
    · intro c hc
      have htimes := (chars_of_time? htime).2 c
      have hparts := chars_of_fraction? hfraction c
      grind
    · grind
  obtain ⟨micro, left, hmicro, hcounts, hread⟩ := exists_readTime? htime hfraction
      (append_assoc .. ▸ hdrop)
  have hrest : cs.drop (11 + (time ++ fraction).length) = zone := by
    rw [← drop_drop, hdrop, drop_left]
  have hsize : 11 + (time ++ fraction).length < cs.length := by
    by_contra hle
    rw [drop_eq_nil_of_le (by omega)] at hrest
    simp [← hrest] at hzone
  refine ⟨micro, hmicro, hcounts, ?_⟩
  rw [readMoment?_date hdate hdivider hplain (hcs ▸ hstart), hcs, readRest?, hread,
    Option.bind_some, size_bytesOf, if_pos hsize, hoffset cs _ hrest]
  rfl

end Parts

/-- A text with `Z` spelled out as an offset. -/
def spell (cs : List Char) : List Char :=
  cs.flatMap fun c => if c = 'Z' then "+00:00".toList else [c]

theorem spell_append (cs ds : List Char) : spell (cs ++ ds) = spell cs ++ spell ds :=
  flatMap_append

theorem spell_of_notMem (h : 'Z' ∉ cs) : spell cs = cs := by
  conv_rhs => rw [← flatMap_singleton' cs]
  refine flatMap_congr fun c hc => if_neg ?_
  intro hzulu
  exact h (hzulu ▸ hc)

theorem readRequest_eq_ok {s : String} :
    Library.readRequest s = .ok m ↔
      readMoment? (String.ofList (spell (Text.trimChars s.toList))) = some m := by
  unfold Library.readRequest spell
  dsimp only
  generalize readMoment? (String.ofList _) = read
  cases read with
  | none => simp
  | some found => simp

/-! ### Texts of date-times -/

namespace Rfc3339.DateTime

variable (t : DateTime)

theorem drop_time : t.text.drop 11 = t.time ++ (t.fraction ++ t.zone) := by
  rw [show 11 = 10 + 1 from rfl, ← drop_drop, text, drop_left' (chars_of_date? t.date_eq).1]
  rfl

theorem drop_fraction : t.text.drop 19 = t.fraction ++ t.zone := by
  rw [show 19 = 11 + 8 from rfl, ← drop_drop, t.drop_time, drop_left' (chars_of_time? t.time_eq).1]

theorem length_text : t.text.length = 19 + t.fraction.length + t.zone.length := by
  unfold text
  rw [length_append, length_cons, length_append, length_append, (chars_of_date? t.date_eq).1,
    (chars_of_time? t.time_eq).1]
  omega

theorem mem_fraction (h : c ∈ t.fraction) : c.isDigit = true ∨ c = '.' :=
  chars_of_fraction? t.fraction_eq c h

theorem mem_zone (h : c ∈ t.zone) : c.isDigit = true ∨ c ∈ ['Z', 'z', '+', '-', ':'] := by
  obtain ⟨hzulu, -⟩ | hzulu |
      ⟨sign, h₁, h₀, m₁, m₀, hours, minutes, hzone, hhours, hminutes, -, -, hsign⟩ :=
    zone?_cases t.zone_eq
  · rw [hzulu] at h
    grind
  · rw [hzulu] at h
    grind
  · have hdigits := isDigit_of_number? hhours
    have hdigits' := isDigit_of_number? hminutes
    rw [hzone] at h
    grind

theorem plain_of_mem_text (h : c ∈ t.text) : c.toNat < 128 ∧ Text.isBlank c = false ∧ c ≠ '/' := by
  refine plain_of_letters ?_
  unfold text at h
  rw [mem_append, mem_cons, mem_append, mem_append] at h
  have hdivider := t.divider_eq
  have hdate := (chars_of_date? t.date_eq).2 c
  have htime := (chars_of_time? t.time_eq).2 c
  have hfraction := t.mem_fraction (c := c)
  have hzone := t.mem_zone (c := c)
  grind

theorem trimChars_text : Text.trimChars t.text = t.text :=
  Text.trimBy_of_forall fun _ hc => (t.plain_of_mem_text hc).2.1

/-! ### Moments -/

/-- **Reading a date-time** finds its fields, and an offset in microseconds. -/
theorem exists_readMoment? (hzone : t.zone.length = 6) :
    ∃ micro < 1000000, readMoment? (String.ofList t.text) =
      if (Clock.mk t.day t.hour t.minute t.second micro).isValid then
          some ⟨⟨t.day, t.hour, t.minute, t.second, micro⟩, some (t.offset * 1000000)⟩
        else none := by
  have hfirst : ∃ sign ∈ ['+', '-', 'Z'], t.zone.head? = some sign := by
    obtain ⟨hzulu, -⟩ | hzulu | ⟨sign, h₁, h₀, m₁, m₀, _, _, hsigned, -, -, -, -, hsign⟩ :=
        zone?_cases t.zone_eq
    · exact ⟨'Z', by simp, by rw [hzulu]; rfl⟩
    · rw [hzulu] at hzone
      cases hzone
    · exact ⟨sign, by grind, by rw [hsigned]; rfl⟩
  obtain ⟨micro, hmicro, -, hread⟩ := Time.exists_readMoment? t.date_eq t.divider_eq
      t.time_eq t.fraction_eq hfirst
    (fun c hc => (plain_of_letters (by grind [t.mem_zone hc])).1) fun _ _ =>
      readOffset?_bytesOf t.zone_eq hzone
  exact ⟨micro, hmicro, hread⟩

/-- The reader does not know the lower-case letter. -/
theorem readMoment?_lower (h : t.zone = ['z']) : readMoment? (String.ofList t.text) = none := by
  have hlength := t.length_text
  have hstart : offsetStart (bytesOf t.text) 11 = t.text.length := by
    rw [offsetStart_of_drop (t.drop_time.trans (append_nil _).symm) _ nofun, ← t.drop_time,
      length_drop, hlength]
    · omega
    · intro c hc
      have htime := (chars_of_time? t.time_eq).2 c
      have hfraction := t.mem_fraction (c := c)
      grind
  have hread : readMoment? (String.ofList t.text) = _ :=
    readMoment?_date t.date_eq t.divider_eq (fun _ hc => (t.plain_of_mem_text hc).1) hstart
  rw [hread, readRest?, ← text, size_bytesOf]
  cases htime : readTime? (bytesOf t.text) 11 t.text.length with
  | none => rfl
  | some time =>
    obtain ⟨hwhole, hpart⟩ := readTime?_bytesOf t.text.length t.time_eq t.drop_time
    -- The letter comes right behind the seconds, or behind the digits of a fraction.
    have hleft : time.leftOver = true := by
      obtain ⟨hnone, -⟩ | ⟨digits, hfraction, hdigits, hall, -⟩ := fraction?_cases t.fraction_eq
      · have hletter : (bytesOf t.text).at 19 = 122 := by
          have hdrop : t.text.drop 19 = ['z'] := by rw [t.drop_fraction, hnone, h, nil_append]
          exact at_of_drop hdrop
        rw [hnone, h] at hlength
        rw [hwhole (by rw [hlength]; decide) (by rw [hlength]; decide)] at htime
        cases htime
        show ((bytesOf t.text).at 19 != 0) = true
        rw [hletter]
        rfl
      · have hpoint : t.text.drop 19 = '.' ::
          (digits ++ ['z']) := by rw [t.drop_fraction, hfraction, h, cons_append]
        have hpos := length_pos_of_ne_nil hdigits
        rw [hfraction, length_cons] at hlength
        rw [hpart (by omega) (at_of_drop hpoint), Option.map_eq_some_iff] at htime
        obtain ⟨⟨micro, left⟩, hread, rfl⟩ := htime
        exact readFraction?_leftOver hall
          (by rw [show 11 + 9 = 19 + 1 from rfl, ← drop_drop, hpoint]; rfl) hread
    simp [hleft]

theorem spell_text :
    spell t.text = t.date ++ t.divider :: (t.time ++ (t.fraction ++ spell t.zone)) := by
  have hdate : spell t.date = t.date :=
      spell_of_notMem fun h => by simpa using (chars_of_date? t.date_eq).2 _ h
  have htime : spell t.time = t.time :=
      spell_of_notMem fun h => by simpa using (chars_of_time? t.time_eq).2 _ h
  have hfraction : spell t.fraction = t.fraction :=
      spell_of_notMem fun h => by simpa using t.mem_fraction h
  have hdivider : spell [t.divider] = [t.divider] := by
    rcases t.divider_eq with hletter | hletter <;> rw [hletter] <;> rfl
  rw [text, spell_append, hdate, ← singleton_append, spell_append, hdivider, spell_append, htime,
    spell_append, hfraction, singleton_append]

/-- **A date-time of a request** is read with its fields and its offset, whether the zone is spelled
out or not. -/
theorem exists_readMoment?_spell (hzone : t.zone ≠ ['z']) :
    ∃ micro < 1000000, readMoment? (String.ofList (spell t.text)) =
      if (Clock.mk t.day t.hour t.minute t.second micro).isValid then
          some ⟨⟨t.day, t.hour, t.minute, t.second, micro⟩, some (t.offset * 1000000)⟩
        else none := by
  rw [t.spell_text]
  obtain ⟨hzulu, hzero⟩ | hlower |
      ⟨sign, h₁, h₀, m₁, m₀, hours, minutes, hsigned, hhours, hminutes, -, -, hsign⟩ :=
    zone?_cases t.zone_eq
  · let spelled : DateTime :=
      { t with zone := ['+', '0', '0', ':', '0', '0'], zone_eq := by rw [hzero]; decide }
    rw [hzulu]
    exact spelled.exists_readMoment? rfl
  · exact absurd hlower hzone
  · have hspell : spell t.zone = t.zone := by
      have hhours := isDigit_of_number? hhours 'Z'
      have hminutes := isDigit_of_number? hminutes 'Z'
      refine spell_of_notMem ?_
      rw [hsigned]
      grind
    rw [hspell, ← text]
    exact t.exists_readMoment? (by rw [hsigned]; rfl)

theorem exists_of_readRequest (h : Library.readRequest (String.ofList t.text) = .ok m) :
    ∃ micro < 1000000,
      m = ⟨⟨t.day, t.hour, t.minute, t.second, micro⟩, some (t.offset * 1000000)⟩ := by
  rw [readRequest_eq_ok, String.toList_ofList, t.trimChars_text] at h
  by_cases hlower : t.zone = ['z']
  · have hspell : spell t.zone = t.zone := by
      rw [hlower]
      rfl
    rw [t.spell_text, hspell, ← text, t.readMoment?_lower hlower] at h
    cases h
  · obtain ⟨micro, hmicro, hread⟩ := t.exists_readMoment?_spell hlower
    rw [hread, Option.ite_none_right_eq_some] at h
    exact ⟨micro, hmicro, (Option.some.inj h.2).symm⟩

/-- A date-time is accepted unless its zone is the lower-case letter or its second is a leap second.
-/
theorem exists_readRequest (hzone : t.zone ≠ ['z']) (hsecond : t.second < 60) :
    ∃ m, Library.readRequest (String.ofList t.text) = .ok m := by
  obtain ⟨micro, hmicro, hread⟩ := t.exists_readMoment?_spell hzone
  have hvalid : (Clock.mk t.day t.hour t.minute t.second micro).isValid = true := by
    obtain ⟨_, _, _, _, _, _, _, _, -, -, -, -, hday⟩ := exists_of_date? t.date_eq
    obtain ⟨_, _, _, _, _, _, -, -, -, -, hhour, hminute⟩ := exists_of_time? t.time_eq
    simp [Clock.isValid, hday, hhour, hminute, hsecond, hmicro]
  refine ⟨⟨⟨t.day, t.hour, t.minute, t.second, micro⟩, some (t.offset * 1000000)⟩,
    readRequest_eq_ok.mpr ?_⟩
  rw [String.toList_ofList, t.trimChars_text, hread, if_pos hvalid]

/-- The instant that is read has the whole seconds of the date-time. -/
theorem instant_of_readRequest (h : Library.readRequest (String.ofList t.text) = .ok m) :
    m.offset.isSome = true ∧ m.instant / 1000000 = t.seconds := by
  obtain ⟨micro, hmicro, rfl⟩ := t.exists_of_readRequest h
  refine ⟨rfl, ?_⟩
  show ((Clock.micros ⟨t.day, t.hour, t.minute, t.second, micro⟩ : Int) - t.offset * 1000000) /
    1000000 = _
  unfold seconds Clock.seconds Clock.micros dayMicros
  dsimp only
  omega

end Rfc3339.DateTime

end Time

/-- What is needed of a library that reads date-times: it reads the whole seconds of one, with an
offset, and it accepts one whose zone is no lower-case letter and that is no leap second. -/
structure Library.ReadsMoments (library : Library) : Prop where
  instant : ∀ (t : Time.Rfc3339.DateTime) m, library.readMoment (String.ofList t.text) = .ok m →
    m.offset.isSome = true ∧ m.instant / 1000000 = t.seconds
  accepts : ∀ t : Time.Rfc3339.DateTime, t.zone ≠ ['z'] → t.second < 60 →
    ∃ m, library.readMoment (String.ofList t.text) = .ok m

theorem Library.readsMoments_plain : Library.plain.ReadsMoments := by
  have hread : Library.plain.readMoment = Library.readRequest := by simp only [Library.plain]
  constructor <;> rw [hread]
  · exact fun t m h => t.instant_of_readRequest h
  · exact fun t hzone hsecond => t.exists_readRequest hzone hsecond

end StacCatalog
