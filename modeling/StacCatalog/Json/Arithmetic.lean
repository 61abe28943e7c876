import StacCatalog.Json.Access
import StacCatalog.Json.Compare

/-!
# Counting with JSON values: limits and sizes come from outside and may be any number
-/

namespace StacCatalog.Json

/-- The whole number of a value that can stand for a position. -/
def wholeNumber? : Json → Option Int
  | .int n => some n
  | .bool b => some (if b then 1 else 0)
  | _ => none

def succ (value : Json) : Outcome Json :=
  match value with
  | .int n => .ok (.int (n + 1))
  | .bool b => .ok (.int (if b then 2 else 1))
  | .float x =>
    match x.toRatio? with
    | some (num, den) =>
      let sum := num + den
      .ok (.float (Binary64.ofRatio (decide (sum < 0)) sum.natAbs den))
    | none => .ok (.float x)
  | .str _ => .error (.wrongType "can only concatenate str (not \"int\") to str")
  | .arr _ => .error (.wrongType "can only concatenate list (not \"int\") to list")
  | v => .error (.wrongType ("unsupported operand type(s) for +: '" ++ v.kindName ++ "' and 'int'"))

def atMost (bound : Int) (value : Json) : Outcome Json := do
  if ← (Json.int bound).less value then return .int bound else return value

/-- The first elements of a list; a negative number leaves out that many at the end. -/
def takeInt (n : Int) (items : List Json) : List Json :=
  if n < 0 then items.take (items.length - n.natAbs) else items.take n.natAbs

/-- The parts of a value that keeps them in order: the elements of an array, the characters of a
text. -/
def sequence? : Json → Option (List Json)
  | .arr items => some items
  | .str s => some (s.toList.map fun c => .str (String.singleton c))
  | _ => none

def upTo (value limit : Json) : Outcome (List Json) :=
  match value.sequence?, limit.wholeNumber? with
  | some items, some n => .ok (takeInt n items)
  | some _, none =>
    .error (.wrongType "slice indices must be integers or None or have an __index__ method")
  | none, _ => .error (notSubscriptable value)

/-- The element at a position; a negative position counts from the end. -/
def nthInt (items : List Json) (n : Int) : Outcome Json :=
  let found := if n < 0 then
      if n.natAbs ≤ items.length then items[items.length - n.natAbs]? else none
    else items[n.natAbs]?
  match found with
  | some v => .ok v
  | none => .error (.outOfRange "list index out of range")

/-- The last part of what must be a sequence. An object has nothing under the position before its
first. -/
def last (value : Json) : Outcome Json :=
  match value, value.sequence? with
  | _, some items => nthInt items (-1)
  | .obj _, none => .error (.missingKey (.int (-1)))
  | _, none => .error (notSubscriptable value)

def pair (value : Json) : Outcome (Json × Json) :=
  match value.elements with
  | .ok [first, second] => .ok (first, second)
  | .ok _ => .error (.invalid "wrong number of values to unpack (expected 2)")
  | .error _ => .error (.wrongType ("cannot unpack non-iterable " ++ value.kindName ++ " object"))

/-- The difference of a count and a value. -/
def countMinus (count : Nat) (value : Json) : Outcome Json :=
  match value with
  | .int n => .ok (.int (count - n))
  | .bool b => .ok (.int (count - if b then 1 else 0))
  | .float x =>
    match x.toRatio? with
    | some (num, den) =>
      let difference := (count : Int) * den - num
      .ok (.float (Binary64.ofRatio (decide (difference < 0)) difference.natAbs den))
    | none => .ok (.float x.opposite)
  | v => .error (.wrongType ("unsupported operand type(s) for -: 'int' and '" ++ v.kindName ++ "'"))

end StacCatalog.Json
