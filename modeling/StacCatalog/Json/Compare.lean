import StacCatalog.Fault

/-!
# Json.Compare
-/

namespace StacCatalog.Json

/-- A number, as a whole number or a floating-point one. -/
inductive Numeral where
  | whole (n : Int)
  | floating (x : Binary64)
  deriving DecidableEq, Repr

/-- The number a value stands for; truth values are one and zero. -/
def numeral? : Json → Option Numeral
  | .bool b => some (.whole (if b then 1 else 0))
  | .int n => some (.whole n)
  | .float x => some (.floating x)
  | _ => none

/-- Order of two numbers by exact value; `none` if one of them is no number. -/
def Numeral.compare? : Numeral → Numeral → Option Ordering
  | .whole a, .whole b => some (compare a b)
  | .floating a, .floating b => a.compare? b
  | .floating a, .whole b => a.compareInt? b
  | .whole a, .floating b => (b.compareInt? a).map Ordering.swap

mutual

/-- Equality by meaning. -/
def same : Json → Json → Bool
  | .null, .null => true
  | .str a, .str b => a == b
  | .arr a, .arr b => sameItems a b
  | .obj a, .obj b => a.length == b.length && sameFields a b
  | a, b =>
    match a.numeral?, b.numeral? with
    | some x, some y => x.compare? y == some .eq
    | _, _ => false

/-- Equality of lists, element by element. -/
def sameItems : List Json → List Json → Bool
  | [], [] => true
  | x :: xs, y :: ys => same x y && sameItems xs ys
  | _, _ => false

/-- Every entry has an equal one of the same name. -/
def sameFields : List (String × Json) → List (String × Json) → Bool
  | [], _ => true
  | (k, v) :: rest, other =>
    (match other.lookup k with
      | some w => same v w
      | none => false) && sameFields rest other

end

/-- The fault of ordering two values that have no order. -/
def notOrdered (sign : String) (a b : Json) : Fault :=
  .wrongType ("'" ++ sign ++ "' not supported between instances of '" ++ a.kindName ++ "' and '" ++
    b.kindName ++ "'")

mutual

/-- Order of two values; `sign` names the comparison in the fault. A pair of numbers of which one is
no number has no order but is no fault. -/
def order (sign : String) : Json → Json → Outcome (Option Ordering)
  | .str a, .str b => .ok (some (compare a b))
  | .arr a, .arr b => orderItems sign a b
  | a, b =>
    match a.numeral?, b.numeral? with
    | some x, some y => .ok (x.compare? y)
    | _, _ => .error (notOrdered sign a b)

/-- Order of two lists: by the first elements that differ, then by length. -/
def orderItems (sign : String) : List Json → List Json → Outcome (Option Ordering)
  | [], [] => .ok (some .eq)
  | [], _ :: _ => .ok (some .lt)
  | _ :: _, [] => .ok (some .gt)
  | x :: xs, y :: ys => if same x y then orderItems sign xs ys else order sign x y

end

def less (a b : Json) : Outcome Bool :=
  (order "<" a b).map (· == some .lt)

def greater (a b : Json) : Outcome Bool :=
  (order ">" a b).map (· == some .gt)

end StacCatalog.Json
