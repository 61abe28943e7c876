import StacCatalog.Library
import StacCatalog.Text.Blank
import StacCatalog.Time.Iso

/-!
# Time intervals of requests
-/

namespace StacCatalog.Time

/-- One end of a range, in universal time. -/
def normalEnd (library : Library) (s : String) : Outcome String := do
  let t := Text.trim s
  if t = "" ∨ t = ".." then return ".."
  else
    let c ← (← library.readMoment t).toUtc
    return c.secondsText ++ "Z"

/-- The text before the first slash and the text after it. -/
def splitSlash (s : String) : Option (String × String) :=
  let front := s.toList.takeWhile (· != '/')
  match s.toList.dropWhile (· != '/') with
  | [] => none
  | _ :: after => some (String.ofList front, String.ofList after)

/-- A range with both ends in universal time: `format_datetime_range`. -/
def normalRange (library : Library) (value : Json) : Outcome String :=
  match value with
  | .str s =>
    match splitSlash s with
    | none => do
      let e ← normalEnd library s
      return e ++ "/" ++ e
    | some (front, after) => do
      let first ← normalEnd library front
      let last ← normalEnd library after
      return first ++ "/" ++ last
  | _ => .ok "../.."

/-- An interval as it reaches a search: a moment, a pair of ends, or a plain value. -/
inductive IntervalArg where
  | moment (m : Moment)
  | tuple (parts : List IntervalArg)
  | value (v : Json)
  deriving Inhabited

/-- The two ends of an interval; an open end is `none`. -/
structure Bounds where
  gte : Option String
  lte : Option String
  deriving DecidableEq, Repr

/-- An end given as text; `..` is open. -/
def openEnd (s : String) : Option String :=
  if s = ".." then none else some s

/-- An end in milliseconds. -/
def Clock.millisText (c : Clock) : String :=
  c.secondsText ++ "." ++ padded 3 (c.micro / 1000) ++ "Z"

/-- An end of a pair: a moment is written as universal time in milliseconds, and what does not count
as given is open. -/
def tupleEnd : IntervalArg → Outcome (Option String)
  | .moment m => .ok (some m.clock.millisText)
  | .tuple [] => .ok none
  | .tuple _ => .error (.noMember "tuple" "strftime")
  | .value v => if v.truthy then .error (.noMember v.kindName "strftime") else .ok none

/-- The ends of an interval: `return_date`. Only the first two parts of a text count. -/
def bounds : IntervalArg → Outcome Bounds
  | .moment m => .ok ⟨some (m.text .auto), some (m.text .auto)⟩
  | .tuple [first, last] => do
    let gte ← tupleEnd first
    let lte ← tupleEnd last
    return ⟨gte, lte⟩
  | .tuple _ => .error (.invalid "wrong number of values to unpack (expected 2)")
  | .value (.str s) =>
    match s.toList.splitOn '/' with
    | first :: second :: _ => .ok ⟨openEnd (String.ofList first), openEnd (String.ofList second)⟩
    | _ => .ok ⟨openEnd s, openEnd s⟩
  | .value _ => .ok ⟨none, none⟩

end StacCatalog.Time
