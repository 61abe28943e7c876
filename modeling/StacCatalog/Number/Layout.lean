import StacCatalog.Number.Shortest

/-!
# Number.Layout
-/

namespace StacCatalog

/-- The decisions of a number format. A value is `d.ddd · 10^e`, and `e` is its exponent. -/
structure Layout where
  /-- The least exponent that is written positionally. -/
  least : Int
  /-- The greatest exponent that is written positionally. -/
  greatest : Int
  /-- Whether a positive exponent carries a plus sign. -/
  plus : Bool
  /-- The least number of digits of an exponent. -/
  width : Nat
  deriving DecidableEq, Repr

namespace Layout

/-- Positional from `0.0001` up to sixteen digits before the point; exponents as `e+16` and `e-05`.
-/
def plain : Layout := ⟨-4, 15, true, 2⟩

/-- Positional from `0.00001` up to sixteen digits before the point; exponents as `e16` and `e-6`.
-/
def compact : Layout := ⟨-5, 15, false, 1⟩

/-- The text of a decimal. A whole value keeps one zero after the point. -/
def decimal (l : Layout) (d : Binary64.Decimal) : String :=
  let digits := Nat.toDigits 10 d.digits
  let e : Int := d.exponent + (digits.length : Int) - 1
  let zeros (n : Nat) : List Char := List.replicate n '0'
  if l.least ≤ e ∧ e ≤ l.greatest then
    if 0 ≤ d.exponent then String.ofList (digits ++ zeros d.exponent.toNat ++ ['.', '0'])
    else if 0 ≤ e then
      let whole := e.toNat + 1
      String.ofList (digits.take whole ++ '.' :: digits.drop whole)
    else String.ofList ('0' :: '.' :: zeros ((-e).toNat - 1) ++ digits)
  else
    let mantissa : List Char :=
      match digits with
      | [] => []
      | [c] => [c]
      | c :: rest => c :: '.' :: rest
    let size := Nat.toDigits 10 e.natAbs
    let sign : List Char := if e < 0 then ['-'] else if l.plus then ['+'] else []
    String.ofList (mantissa ++ 'e' :: sign ++ zeros (l.width - size.length) ++ size)

def render (l : Layout) (x : Binary64) : String :=
  match x.view with
  | .nan => "nan"
  | .infinite negative => if negative then "-inf" else "inf"
  | .finite negative m _ =>
    let magnitude := if m = 0 then "0.0" else l.decimal x.shortest
    if negative then "-" ++ magnitude else magnitude

end Layout

end StacCatalog
