/-!
# Classes of characters given as tables of code-point ranges
-/

namespace StacCatalog.Text

/-- Ranges of code points, both ends included. -/
abbrev Ranges := List (Nat × Nat)

/-- The ranges that runs stand for, from a code point on. -/
def Ranges.ofRuns (start : Nat) : List Nat → Ranges
  | between :: held :: rest =>
    let first := start + between
    (first, first + held - 1) :: ofRuns (first + held) rest
  | _ => []

/-- Whether a character lies in one of the ranges. -/
def Ranges.has (ranges : Ranges) (c : Char) : Bool :=
  ranges.any fun (first, last) => first ≤ c.toNat && c.toNat ≤ last

/-- A run of code points that are shifted alike: every `step`-th one from `first` to `last`. -/
structure Shift where
  first : Nat
  last : Nat
  step : Nat
  delta : Int
  deriving DecidableEq, Repr

/-- The runs that numbers stand for, from a code point on: how many code points lie between a run
and the one before it, how far it reaches, its step and its shift. -/
def Shift.ofRuns (start : Nat) : List (Nat × Nat × Nat × Int) → List Shift
  | [] => []
  | (between, reach, step, delta) :: rest =>
    let first := start + between
    ⟨first, first + reach, step, delta⟩ :: ofRuns (first + reach + 1) rest

/-- The run that shifts back. -/
def Shift.inverse (s : Shift) : Shift :=
  ⟨(s.first + s.delta).toNat, (s.last + s.delta).toNat, s.step, -s.delta⟩

/-- The image of a character under the run, if the run covers it. -/
def Shift.image? (s : Shift) (c : Char) : Option Char :=
  let n := c.toNat
  if s.first ≤ n && n ≤ s.last && (n - s.first) % s.step == 0 then
    some (Char.ofNat ((n : Int) + s.delta).toNat)
  else none

/-- The image of a character under the first run that covers it, and itself if none does. -/
def shift (runs : List Shift) (c : Char) : Char :=
  (runs.findSome? (·.image? c)).getD c

end StacCatalog.Text
