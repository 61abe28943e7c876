import StacCatalog.Text.Utf8
import StacCatalog.Time.Moment

/-!
# Moments as ISO 8601 text
-/

namespace StacCatalog.Time

/-! ### Writing -/

/-- A number with at least `width` digits. -/
def padded (width n : Nat) : String :=
  let digits := Nat.toDigits 10 n
  String.ofList (List.replicate (width - digits.length) '0' ++ digits)

/-- How much of the time of day is written. -/
inductive Precision where
  /-- Seconds, and microseconds if there are any. -/
  | auto
  | hours
  | minutes
  | seconds
  | milliseconds
  | microseconds
  deriving DecidableEq, Repr

/-- The precision of a name. -/
def Precision.ofName? : String → Option Precision
  | "auto" => some .auto
  | "hours" => some .hours
  | "minutes" => some .minutes
  | "seconds" => some .seconds
  | "milliseconds" => some .milliseconds
  | "microseconds" => some .microseconds
  | _ => none

/-- The time of day as text. -/
def Clock.timeText (c : Clock) (precision : Precision) : String :=
  let hours := padded 2 c.hour
  let minutes := hours ++ ":" ++ padded 2 c.minute
  let seconds := minutes ++ ":" ++ padded 2 c.second
  match precision with
  | .auto => if c.micro = 0 then seconds else seconds ++ "." ++ padded 6 c.micro
  | .hours => hours
  | .minutes => minutes
  | .seconds => seconds
  | .milliseconds => seconds ++ "." ++ padded 3 (c.micro / 1000)
  | .microseconds => seconds ++ "." ++ padded 6 c.micro

/-- The date, with a year of four digits. -/
def Date.text (d : Date) : String :=
  padded 4 d.year ++ "-" ++ padded 2 d.month ++ "-" ++ padded 2 d.day

/-- An offset: hours and minutes, and seconds or microseconds if there are any. -/
def offsetText (offset : Int) : String :=
  let sign := if offset < 0 then "-" else "+"
  let n := offset.natAbs
  let seconds := n / 1000000
  let base := sign ++ padded 2 (seconds / 3600) ++ ":" ++ padded 2 (seconds / 60 % 60)
  if n % 1000000 ≠ 0 then base ++ ":" ++ padded 2 (seconds % 60) ++ "." ++ padded 6 (n % 1000000)
  else if seconds % 60 ≠ 0 then base ++ ":" ++ padded 2 (seconds % 60)
  else base

/-- A moment as text. -/
def Moment.text (m : Moment) (precision : Precision) : String :=
  m.clock.date.text ++ "T" ++ m.clock.timeText precision ++ (m.offset.map offsetText).getD ""

/-- A text with `Z` for the offset of universal time at its end. -/
def zulu (text : String) : String :=
  let zero := "+00:00".toList
  if zero.isSuffixOf text.toList then String.ofList
    (text.toList.take (text.toList.length - zero.length)) ++ "Z" else text

/-- A moment as text, with `Z` for an offset of zero: `datetime_to_str`. A moment without an offset
is universal time. -/
def Moment.zuluText (m : Moment) (precision : Precision) : String :=
  zulu (Moment.text ⟨m.clock, some (m.offset.getD 0)⟩ precision)

/-- The present moment, in universal time: `now_to_rfc3339_str`. -/
def nowText (now : Moment) : Outcome String := do
  let c ← match now.offset with
    | none => .ok now.clock
    | some _ => now.toUtc
  return (Moment.mk c (some 0)).zuluText .auto

/-- A date and time in whole seconds. The year is written without leading zeros. -/
def Clock.secondsText (c : Clock) : String :=
  toString c.date.year ++ "-" ++ padded 2 c.date.month ++ "-" ++ padded 2 c.date.day ++ "T" ++
    c.timeText .seconds

/-! ### Reading -/

/-- The bytes of a text; zero from its end on. -/
abbrev Bytes := Array Nat

def Bytes.at (b : Bytes) (i : Nat) : Nat :=
  b.getD i 0

def isDigitByte (b : Nat) : Bool :=
  48 ≤ b && b ≤ 57

/-- A number of exactly `count` digits. -/
def Bytes.number? (b : Bytes) (start count : Nat) : Option Nat :=
  let digits := (List.range count).map fun i => b.at (start + i)
  if digits.all isDigitByte then some (digits.foldl (fun n d => n * 10 + (d - 48)) 0) else none

/-- The number of digits from a position on. -/
def Bytes.digitCount (b : Bytes) (start : Nat) : Nat :=
  ((List.range (b.size - start)).map fun i => b.at (start + i)).takeWhile isDigitByte |>.length

/-- Where the date ends. -/
def dateEnd (b : Bytes) : Nat :=
  let dash := 45
  let week := 87
  if b.size = 7 then 7
  else if b.at 4 = dash then
    if b.at 5 = week then
      if b.size < 8 then 7
      else if 8 < b.size && b.at 8 = dash then
        if b.size = 9 then 8
        else if 10 < b.size && isDigitByte (b.at 10) then 8
        else 10
      else 8
    else 10
  else if b.at 4 = week then
    let stop := 7 + b.digitCount 7
    if stop < 9 then stop else if stop % 2 = 0 then 7 else 8
  else 8

/-- The date that takes up the first bytes. -/
def readDate? (b : Bytes) (stop : Nat) : Option Date := do
  let year ← b.number? 0 4
  let dashed := b.at 4 == 45
  let start := if dashed then 5 else 4
  if b.at start == 87 then
    let week ← b.number? (start + 1) 2
    let next := start + 3
    if next < stop then
      if dashed && b.at next != 45 then none
      else
        let day ← b.number? (if dashed then next + 1 else next) 1
        Date.ofWeek? year week day
    else Date.ofWeek? year week 1
  else
    let month ← b.number? start 2
    if dashed && b.at (start + 2) != 45 then none
    else
      let day ← b.number? (if dashed then start + 3 else start + 2) 2
      some ⟨year, month, day⟩

/-- What was read of a time of day, and whether something was left over. -/
structure TimeOfDay where
  hour : Nat
  minute : Nat
  second : Nat
  micro : Nat
  leftOver : Bool

/-- A fraction of a second: up to six digits count, further ones are skipped. -/
def readFraction? (b : Bytes) (start stop : Nat) : Option (Nat × Bool) := do
  let count := min 6 (stop - start)
  let n ← b.number? start count
  let skipped := b.digitCount (start + count)
  some (n * Nat.pow 10 (6 - count), b.at (start + count + skipped) != 0)

/-- What follows a two-digit part of a time of day. -/
inductive Follow where
  | done (leftOver : Bool)
  | fraction (start : Nat)
  | part (start : Nat)
  | bad

/-- Looks at what follows the part that ends before `next`. -/
def follow (b : Bytes) (next stop : Nat) (colons : Bool) : Follow :=
  let c := b.at next
  if stop ≤ next + 1 then .done (c != 0)
  else if colons && c == 58 then .part (next + 1)
  else if c == 46 || c == 44 then .fraction (next + 1)
  else if colons then .bad
  else .part next

/-- A time of day: hours, minutes and seconds with or without colons, and a fraction after any of
them. -/
def readTime? (b : Bytes) (start stop : Nat) : Option TimeOfDay := do
  let hour ← b.number? start 2
  let colons := b.at (start + 2) == 58
  match follow b (start + 2) stop colons with
  | .bad => none
  | .done left => some ⟨hour, 0, 0, 0, left⟩
  | .fraction i => do
    let (micro, left) ← readFraction? b i stop
    some ⟨hour, 0, 0, micro, left⟩
  | .part i => do
    let minute ← b.number? i 2
    match follow b (i + 2) stop colons with
    | .bad => none
    | .done left => some ⟨hour, minute, 0, 0, left⟩
    | .fraction j => do
      let (micro, left) ← readFraction? b j stop
      some ⟨hour, minute, 0, micro, left⟩
    | .part j => do
      let second ← b.number? j 2
      match follow b (j + 2) stop colons with
      | .bad => none
      | .done left => some ⟨hour, minute, second, 0, left⟩
      | .fraction k | .part k => do
        let (micro, left) ← readFraction? b k stop
        some ⟨hour, minute, second, micro, left⟩

/-- Where the offset starts: the first sign or `Z` after the start, or the end. -/
def offsetStart (b : Bytes) (start : Nat) : Nat :=
  let others := ((List.range (b.size - start)).map fun i => b.at (start + i)).takeWhile
    fun c => c != 43 && c != 45 && c != 90
  start + others.length

/-- The size of a byte sequence that starts with this byte. -/
def sequenceSize (lead : Nat) : Nat :=
  if lead < 128 then 1 else if lead / 16 = 14 then 3 else if lead / 16 = 15 then 4 else 2

/-- The offset of a time of day, in microseconds. Less than a second counts as none. -/
def readOffset? (b : Bytes) (start : Nat) : Option Int :=
  if b.at start == 90 then if start + 1 = b.size then some 0 else none
  else do
    let t ← readTime? b (start + 1) b.size
    if t.leftOver then none
    else
      let seconds := (t.hour * 60 + t.minute) * 60 + t.second
      if seconds = 0 then some 0
      else
        let size : Int := ((seconds * 1000000 + t.micro : Nat) : Int)
        let offset := if b.at start == 45 then -size else size
        if offset.natAbs < dayMicros then some offset else none

/-- The moment that a text names. -/
def readMoment? (s : String) : Option Moment := do
  let b : Bytes := (Text.utf8 s).toArray
  if s.length < 7 then none
  else
    let stop := dateEnd b
    let date ← readDate? b stop
    let (t, offset) ← if stop < b.size then do
        let start := stop + sequenceSize (b.at stop)
        let zone := offsetStart b start
        let t ← readTime? b start zone
        if zone < b.size then do
          let offset ← readOffset? b zone
          some (t, some offset)
        else if t.leftOver then none
        else some (t, none)
      else some (⟨0, 0, 0, 0, false⟩, none)
    let clock : Clock := ⟨date, t.hour, t.minute, t.second, t.micro⟩
    if clock.isValid then some ⟨clock, offset⟩ else none

end StacCatalog.Time
