import StacCatalog.Number.Binary64

/-!
# The shortest decimal of a floating-point number
-/

namespace StacCatalog.Binary64

/-- The number `digits · 10^exponent`. -/
structure Decimal where
  digits : Nat
  exponent : Int
  deriving DecidableEq, Repr, Inhabited

def decimalLength (n : Nat) : Nat :=
  (Nat.toDigits 10 n).length

/-- The greatest `e` with `10^e ≤ num / den`, for a positive fraction. -/
def floorLog10 (num den : Nat) : Int :=
  if den ≤ num then (decimalLength (num / den) : Int) - 1
  else
    let k := decimalLength (den / num)
    if den = num * Nat.pow 10 (k - 1) then -((k : Int) - 1) else -(k : Int)

/-- Drops the zeros at the end, at most `fuel` of them. -/
def Decimal.strip : Nat → Decimal → Decimal
  | 0, d => d
  | fuel + 1, d =>
    if d.digits % 10 = 0 ∧ d.digits ≠ 0 then Decimal.strip fuel ⟨d.digits / 10, d.exponent + 1⟩
      else d

/-- The decimal with `n` significant digits that reads back as the magnitude of `x`, if there is
one: of two, the nearer, and the even one on a tie. -/
def onGrid (x : Binary64) (num den : Nat) (top : Int) (n : Nat) : Option Decimal :=
  let exponent := top - (n : Int) + 1
  let scaledNum := if 0 ≤ exponent then num else num * Nat.pow 10 (-exponent).toNat
  let scaledDen := if 0 ≤ exponent then den * Nat.pow 10 exponent.toNat else den
  let below := scaledNum / scaledDen
  let readsBack (digits : Nat) : Bool := ofDecimal x.negative digits exponent == x
  let nearest := roundDiv scaledNum scaledDen
  let other := if nearest = below then below + 1 else below
  if readsBack nearest then some ⟨nearest, exponent⟩
  else if readsBack other then some ⟨other, exponent⟩
  else none

/-- The shortest decimal of the magnitude of a finite number that is not zero. -/
def shortest (x : Binary64) : Decimal :=
  match x.toRatio? with
  | none => ⟨0, 0⟩
  | some (a, den) =>
    let num := a.natAbs
    if num = 0 then ⟨0, 0⟩
    else
      let top := floorLog10 num den
      match (List.range 17).findSome? fun n => onGrid x num den top (n + 1) with
      | some d => d.strip 20
      | none => ⟨num / den, 0⟩

end StacCatalog.Binary64
