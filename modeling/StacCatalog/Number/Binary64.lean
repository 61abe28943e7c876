/-!
# The 64-bit binary floating-point numbers, kept as their bit pattern
-/

namespace StacCatalog

/-- A 64-bit binary floating-point number, as its bit pattern. -/
structure Binary64 where
  bits : UInt64
  deriving DecidableEq, Repr, Inhabited

namespace Binary64

/-- What a bit pattern stands for: a finite value is `± m · 2^q`. -/
inductive View where
  | nan
  | infinite (negative : Bool)
  | finite (negative : Bool) (m : Nat) (q : Int)
  deriving DecidableEq, Repr

def negative (x : Binary64) : Bool :=
  x.bits.toNat / Nat.pow 2 63 == 1

/-- The decoded value: subnormal numbers share the least exponent, `-1074`. -/
def view (x : Binary64) : View :=
  let exponent : Nat := x.bits.toNat / Nat.pow 2 52 % 2048
  let fraction : Nat := x.bits.toNat % Nat.pow 2 52
  if exponent = 2047 then
    if fraction = 0 then .infinite x.negative else .nan
  else if exponent = 0 then .finite x.negative fraction (-1074)
  else .finite x.negative (Nat.pow 2 52 + fraction) ((exponent : Int) - 1075)

/-- The bit pattern of a magnitude, with its sign. -/
def ofMagnitude (negative : Bool) (magnitude : Nat) : Binary64 :=
  ⟨UInt64.ofNat (if negative then Nat.pow 2 63 + magnitude else magnitude)⟩

/-- The magnitude bits of an infinite number. -/
def infinityMagnitude : Nat := 2047 * Nat.pow 2 52

def infinity (negative : Bool) : Binary64 :=
  ofMagnitude negative infinityMagnitude

def nan : Binary64 :=
  ofMagnitude false (infinityMagnitude + Nat.pow 2 51)

def opposite (x : Binary64) : Binary64 :=
  ofMagnitude (!x.negative) (x.bits.toNat % Nat.pow 2 63)

/-- The quotient rounded to the nearest natural number; a half goes to the even neighbour. -/
def roundDiv (num den : Nat) : Nat :=
  let floor := num / den
  let twice := 2 * (num % den)
  if twice < den then floor
  else if den < twice then floor + 1
  else if floor % 2 = 0 then floor else floor + 1

/-- The greatest `k` with `2^k ≤ num / den`, for a positive fraction. -/
def floorLog2 (num den : Nat) : Int :=
  let k : Int := (num.log2 : Int) - (den.log2 : Int)
  let reached := if 0 ≤ k then den * Nat.pow 2 k.toNat ≤ num else den ≤ num * Nat.pow 2 (-k).toNat
  if reached then k else k - 1

/-- The nearest number to `± num / den`. A mantissa that rounds up to the next power of two carries
into the exponent by plain addition of the two bit fields, and a magnitude past the greatest finite
number is infinite. -/
def ofRatio (negative : Bool) (num den : Nat) : Binary64 :=
  if num = 0 ∨ den = 0 then ofMagnitude negative 0
  else
    let q : Int := max (floorLog2 num den - 52) (-1074)
    let m := if 0 ≤ q then roundDiv num (den * Nat.pow 2 q.toNat)
        else roundDiv (num * Nat.pow 2 (-q).toNat) den
    let magnitude := m + (q + 1074).toNat * Nat.pow 2 52
    if infinityMagnitude ≤ magnitude then infinity negative else ofMagnitude negative magnitude

def ofInt (n : Int) : Binary64 :=
  ofRatio (n < 0) n.natAbs 1

/-- The nearest number to `± digits · 10^exponent`. Exponents so far out that the result is zero or
infinite for every mantissa of that many digits are settled without computing the power. -/
def ofDecimal (negative : Bool) (digits : Nat) (exponent : Int) : Binary64 :=
  let places : Int := ((Nat.toDigits 10 digits).length : Int) + exponent
  if digits = 0 then ofMagnitude negative 0
  else if 400 < places then infinity negative
  else if places < -400 then ofMagnitude negative 0
  else if 0 ≤ exponent then ofRatio negative (digits * Nat.pow 10 exponent.toNat) 1
  else ofRatio negative digits (Nat.pow 10 (-exponent).toNat)

/-! ### Fractions and order -/

/-- The exact value of a finite number, as a signed numerator over a positive denominator. -/
def toRatio? (x : Binary64) : Option (Int × Nat) :=
  match x.view with
  | .finite negative m q =>
    let num : Nat := if 0 ≤ q then m * Nat.pow 2 q.toNat else m
    let den : Nat := if 0 ≤ q then 1 else Nat.pow 2 (-q).toNat
    some (if negative then -(num : Int) else num, den)
  | _ => none

def isZero (x : Binary64) : Bool :=
  match x.view with
  | .finite _ 0 _ => true
  | _ => false

def isNaN (x : Binary64) : Bool :=
  x.view == .nan

/-- Order by value; `none` if either side is no number. Infinite numbers lie beyond all others. -/
def compare? (x y : Binary64) : Option Ordering :=
  match x.view, y.view with
  | .nan, _ => none
  | _, .nan => none
  | .infinite a, .infinite b => some (if a = b then .eq else if a then .lt else .gt)
  | .infinite a, _ => some (if a then .lt else .gt)
  | _, .infinite b => some (if b then .gt else .lt)
  | _, _ =>
    match x.toRatio?, y.toRatio? with
    | some (a, b), some (c, d) => some (compare (a * d) (c * b))
    | _, _ => none

/-- Order of a number against an integer, without rounding the integer. -/
def compareInt? (x : Binary64) (n : Int) : Option Ordering :=
  match x.view with
  | .nan => none
  | .infinite a => some (if a then .lt else .gt)
  | _ => x.toRatio?.map fun (a, b) => compare a (n * b)

/-- The value without its fraction, toward zero; `none` for values that are not finite. -/
def truncate? (x : Binary64) : Option Int :=
  x.toRatio?.map fun (a, b) => a.tdiv b

/-- The rounded quotient. A quotient of two infinite numbers is no number. -/
def div (x y : Binary64) : Binary64 :=
  let negative := x.negative != y.negative
  match x.view, y.view with
  | .nan, _ | _, .nan | .infinite _, .infinite _ => nan
  | .infinite _, _ => infinity negative
  | _, .infinite _ => ofMagnitude negative 0
  | _, _ =>
    match x.toRatio?, y.toRatio? with
    | some (a, b), some (c, d) => ofRatio negative (a.natAbs * d) (b * c.natAbs)
    | _, _ => nan

/-- The rounded product. A product of zero and an infinite number is no number. -/
def mul (x y : Binary64) : Binary64 :=
  let negative := x.negative != y.negative
  match x.toRatio?, y.toRatio? with
  | some (a, b), some (c, d) => ofRatio negative (a.natAbs * c.natAbs) (b * d)
  | _, _ => if x.isNaN || y.isNaN || x.isZero || y.isZero then nan else infinity negative

end Binary64

end StacCatalog
