import StacCatalog.Text.Case

/-!
# Comparing characters without regard to letter case
-/

namespace StacCatalog.Text

/-- How a comparison treats letter case. -/
inductive Fold where
  | exact
  | ascii
  | all
  deriving DecidableEq, Repr

/-- The lower-case form of a character that stands alone, as one character. -/
def lowerOne (c : Char) : Char :=
  if c.toNat < 128 then c.toLower
  else if c.toNat == 0x130 then 'i'
  else shift lowerRuns c

/-- The lower-case letters that share a capital with another. -/
def twins : List (List Nat) :=
  [[0x69, 0x131], [0x73, 0x17f], [0xb5, 0x3bc], [0x345, 0x3b9, 0x1fbe], [0x390, 0x1fd3],
    [0x3b0, 0x1fe3],
   [0x3b2, 0x3d0], [0x3b5, 0x3f5], [0x3b8, 0x3d1], [0x3ba, 0x3f0], [0x3c0, 0x3d6], [0x3c1, 0x3f1],
   [0x3c2, 0x3c3], [0x3c6, 0x3d5], [0x432, 0x1c80], [0x434, 0x1c81], [0x43e, 0x1c82],
     [0x441, 0x1c83],
   [0x442, 0x1c84, 0x1c85], [0x44a, 0x1c86], [0x463, 0x1c87], [0x1c88, 0xa64b], [0x1e61, 0x1e9b],
   [0xfb05, 0xfb06]]

/-- A lower-case letter and those that share a capital with it. -/
def twinsOf (n : Nat) : List Nat :=
  (twins.find? (·.contains n)).getD [n]

/-- The characters with a given lower-case form. -/
def raised (n : Nat) : List Nat :=
  let shifted (s : Shift) : Option Nat :=
    let m := ((n : Int) - s.delta).toNat
    if s.image? (Char.ofNat m) == some (Char.ofNat n) then some m else none
  n :: (if n = 0x69 then [0x130] else []) ++ lowerRuns.filterMap shifted

namespace Fold

/-- The form in which characters are compared one by one. -/
def lower : Fold → Char → Char
  | .exact, c => c
  | .ascii, c => c.toLower
  | .all, c => lowerOne c

/-- All characters that are like a character. -/
def alike : Fold → Char → List Nat
  | .exact, c => [c.toNat]
  | .ascii, c => [c.toNat, c.toLower.toNat, c.toUpper.toNat]
  | .all, c => (twinsOf (lowerOne c).toNat).flatMap raised

end Fold

end StacCatalog.Text
