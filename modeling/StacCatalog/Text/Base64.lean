/-!
# The URL-safe base 64 form of bytes
-/

namespace StacCatalog.Text

def base64Digits : List Char :=
  "ABCDEFGHIJKLMNOPQRSTUVWXYZabcdefghijklmnopqrstuvwxyz0123456789-_".toList

def base64Digit (n : Nat) : Char :=
  base64Digits.getD n 'A'

/-- The digits of bytes. -/
def encodeBase64 : List Nat → List Char
  | [] => []
  | [a] => [base64Digit (a / 4), base64Digit (a % 4 * 16), '=', '=']
  | [a, b] =>
    [base64Digit (a / 4), base64Digit (a % 4 * 16 + b / 16), base64Digit (b % 16 * 4), '=']
  | a :: b :: c :: rest =>
    base64Digit (a / 4) :: base64Digit (a % 4 * 16 + b / 16) ::
      base64Digit (b % 16 * 4 + c / 64) :: base64Digit (c % 64) :: encodeBase64 rest

/-- The value of a digit of either alphabet. -/
def base64Value? (c : Char) : Option Nat :=
  if c == '+' then some 62
  else if c == '/' then some 63
  else base64Digits.findIdx? (· == c)

/-- Where reading stands inside a group of four digits: how many digits of it were read, the bits
not yet written out, and the padding signs since the last digit. -/
structure Group where
  digits : Nat
  left : Nat
  pads : Nat

/-- Reads base 64 digits; `none` if the data ends inside a group. -/
def readBase64 (g : Group) : List Char → Option (List Nat)
  | [] => if g.digits = 0 then some [] else none
  | c :: rest =>
    if c == '=' then
      if 2 ≤ g.digits then
        if 4 ≤ g.digits + (g.pads + 1) then some []
          else readBase64 { g with pads := g.pads + 1 } rest
      else readBase64 g rest
    else
      match base64Value? c with
      | none => readBase64 g rest
      | some v =>
        match g.digits with
        | 0 => readBase64 ⟨1, v, 0⟩ rest
        | 1 => (readBase64 ⟨2, v % 16, 0⟩ rest).map ((g.left * 4 + v / 16) :: ·)
        | 2 => (readBase64 ⟨3, v % 4, 0⟩ rest).map ((g.left * 16 + v / 4) :: ·)
        | _ => (readBase64 ⟨0, 0, 0⟩ rest).map ((g.left * 64 + v) :: ·)

/-- The bytes of digits. -/
def decodeBase64? (cs : List Char) : Option (List Nat) :=
  readBase64 ⟨0, 0, 0⟩ cs

end StacCatalog.Text
