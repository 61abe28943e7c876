import StacCatalog.Number.Binary64
import StacCatalog.Text.Digit

/-!
# Reading decimal numbers with a fraction
-/

namespace StacCatalog.Text

/-- A digit of any script as an ASCII digit; other characters stay. -/
def asciiDigit (c : Char) : Char :=
  match digitValue? c with
  | some n => Char.ofNat (48 + n)
  | none => c

/-- Takes out underscores; `none` if one does not stand between digits. -/
def dropUnderscores (before : Bool) : List Char → Option (List Char)
  | [] => some []
  | '_' :: c :: rest => if before && c.isDigit then dropUnderscores false (c :: rest) else none
  | '_' :: [] => none
  | c :: rest => (dropUnderscores c.isDigit rest).map (c :: ·)

/-- The value of decimal digits. -/
def digitsToNat (cs : List Char) : Nat :=
  cs.foldl (fun n c => n * 10 + (c.toNat - 48)) 0

/-- An exponent: a sign and digits. -/
def readExponent? (cs : List Char) : Option Int :=
  let whole (digits : List Char) : Option Int :=
    if digits.isEmpty || !digits.all Char.isDigit then none else some (digitsToNat digits)
  match cs with
  | '-' :: digits => (whole digits).map fun n => -n
  | '+' :: digits => whole digits
  | digits => whole digits

/-- A number without a sign. -/
def readMagnitude? (negative : Bool) (cs : List Char) : Option Binary64 :=
  let word := String.ofList (cs.map Char.toLower)
  if word = "inf" ∨ word = "infinity" then some (Binary64.infinity negative)
  else if word = "nan" then some Binary64.nan
  else
    let whole := cs.takeWhile Char.isDigit
    let (fraction, rest) := match cs.dropWhile Char.isDigit with
      | '.' :: rest => (rest.takeWhile Char.isDigit, rest.dropWhile Char.isDigit)
      | rest => ([], rest)
    if whole.isEmpty && fraction.isEmpty then none
    else
      let exponent := match rest with
        | [] => some 0
        | 'e' :: tail | 'E' :: tail => readExponent? tail
        | _ => none
      exponent.map fun e => Binary64.ofDecimal negative (digitsToNat (whole ++ fraction))
        (e - fraction.length)

def readFloat? (s : String) : Option Binary64 :=
  match dropUnderscores false ((trimNumber s.toList).map asciiDigit) with
  | some ('-' :: rest) => readMagnitude? true rest
  | some ('+' :: rest) => readMagnitude? false rest
  | some rest => readMagnitude? false rest
  | none => none

end StacCatalog.Text
