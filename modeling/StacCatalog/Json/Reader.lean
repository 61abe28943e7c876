import StacCatalog.Json.Basic
import StacCatalog.Text.Hex

/-!
# Reading JSON text
-/

namespace StacCatalog.Json

/-- What a reader does with numbers that are too large, and with values that lie too deep. -/
structure Limits where
  /-- Whether whole numbers outside 64 bits are read as floating-point numbers. -/
  words : Bool
  /-- Whether there may be numbers that are not finite, by name or by size. -/
  infinities : Bool
  /-- How many arrays and objects may lie around a value; any number if there is none. -/
  depth : Option Nat

namespace Limits

/-- Numbers of any size, values at any depth. -/
def unbounded : Limits := ⟨false, true, none⟩

/-- Whole numbers of 64 bits, finite numbers, values at a limited depth. -/
def strict : Limits := ⟨true, false, some 1024⟩

/-- The limits inside one more array or object; `none` if there may be no further one. -/
def inside? (limits : Limits) : Option Limits :=
  match limits.depth with
  | none => some limits
  | some 0 => none
  | some (n + 1) => some { limits with depth := some n }

end Limits

def skipBlanks : List Char → List Char :=
  List.dropWhile fun c => c == ' ' || c == '\t' || c == '\n' || c == '\r'

/-- Four hexadecimal digits. -/
def readUnit? : List Char → Option (Nat × List Char)
  | a :: b :: c :: d :: rest => do
    let a ← Text.hexValue? a
    let b ← Text.hexValue? b
    let c ← Text.hexValue? c
    let d ← Text.hexValue? d
    some (((a * 16 + b) * 16 + c) * 16 + d, rest)
  | _ => none

/-- The character of an escape, after its backslash. A pair of surrogates is one character; a
surrogate that stands alone is refused. -/
def readEscape? : List Char → Option (Char × List Char)
  | '"' :: rest => some ('"', rest)
  | '\\' :: rest => some ('\\', rest)
  | '/' :: rest => some ('/', rest)
  | 'b' :: rest => some (Char.ofNat 8, rest)
  | 'f' :: rest => some (Char.ofNat 12, rest)
  | 'n' :: rest => some ('\n', rest)
  | 'r' :: rest => some ('\r', rest)
  | 't' :: rest => some ('\t', rest)
  | 'u' :: rest =>
    match readUnit? rest with
    | none => none
    | some (high, rest) =>
      if high < 0xD800 || 0xE000 ≤ high then some (Char.ofNat high, rest)
      else if 0xDC00 ≤ high then none
      else
        match rest with
        | '\\' :: 'u' :: rest =>
          match readUnit? rest with
          | none => none
          | some (low, rest) =>
            if 0xDC00 ≤ low && low < 0xE000 then
              some (Char.ofNat (0x10000 + (high - 0xD800) * 1024 + (low - 0xDC00)), rest)
            else none
        | _ => none
  | _ => none

/-- The rest of a JSON text after its opening quote. -/
def readText? : Nat → List Char → Option (List Char × List Char)
  | 0, _ => none
  | _, [] => none
  | fuel + 1, c :: rest =>
    if c == '"' then some ([], rest)
    else if c == '\\' then
      match readEscape? rest with
      | none => none
      | some (d, rest) => (readText? fuel rest).map fun (cs, rest) => (d :: cs, rest)
    else if c.toNat < 32 then none
    else (readText? fuel rest).map fun (cs, rest) => (c :: cs, rest)

def digitsValue (cs : List Char) : Nat :=
  cs.foldl (fun n c => n * 10 + (c.toNat - 48)) 0

/-- The fraction of a number: a point and at least one digit, or nothing. -/
def readFraction? (cs : List Char) : Option (List Char × List Char) :=
  match cs with
  | '.' :: rest =>
    let digits := rest.takeWhile Char.isDigit
    if digits.isEmpty then none else some (digits, rest.dropWhile Char.isDigit)
  | rest => some ([], rest)

/-- The exponent of a number, or nothing. -/
def readExponent? (cs : List Char) : Option (Option Int × List Char) :=
  match cs with
  | c :: rest =>
    if c == 'e' || c == 'E' then
      let (negative, rest) := match rest with
        | '-' :: rest => (true, rest)
        | '+' :: rest => (false, rest)
        | rest => (false, rest)
      let digits := rest.takeWhile Char.isDigit
      if digits.isEmpty then none
      else
        let n : Int := digitsValue digits
        some (some (if negative then -n else n), rest.dropWhile Char.isDigit)
    else some (none, c :: rest)
  | [] => some (none, [])

/-- A floating-point number, before the rest of the text. -/
def Limits.number? (limits : Limits) (x : Binary64) (rest : List Char) :
    Option (Json × List Char) :=
  if !limits.infinities && x.toRatio?.isNone then none else some (.float x, rest)

def readNumber? (limits : Limits) (cs : List Char) : Option (Json × List Char) := do
  let (negative, cs) := match cs with
    | '-' :: rest => (true, rest)
    | rest => (false, rest)
  let whole := cs.takeWhile Char.isDigit
  let cs := cs.dropWhile Char.isDigit
  if whole.isEmpty || (whole.head? == some '0' && 1 < whole.length) then none
  else
    let (fraction, cs) ← readFraction? cs
    let (exponent, cs) ← readExponent? cs
    if fraction.isEmpty && exponent.isNone then
      let size : Int := digitsValue whole
      let n := if negative then -size else size
      if limits.words && (n < -Int.pow 2 63 || Int.pow 2 64 ≤ n) then limits.number? (.ofInt n) cs
      else some (.int n, cs)
    else
      limits.number? (Binary64.ofDecimal negative (digitsValue (whole ++ fraction))
        (exponent.getD 0 - (fraction.length : Int))) cs

/-- A value that is written as a word. -/
def readWord? (word : String) (value : Json) (cs : List Char) : Option (Json × List Char) :=
  if word.toList.isPrefixOf cs then some (value, cs.drop word.length) else none

/-- A number that is written as a word. -/
def readNamed? (limits : Limits) (cs : List Char) : Option (Json × List Char) :=
  if limits.infinities then
    (readWord? "NaN" (.float .nan) cs).orElse fun _ =>
      (readWord? "Infinity" (.float (.infinity false)) cs).orElse fun _ =>
        readWord? "-Infinity" (.float (.infinity true)) cs
  else none

mutual

/-- A value, from its first character on. -/
def readValue? (limits : Limits) : Nat → List Char → Option (Json × List Char)
  | 0, _ => none
  | fuel + 1, cs =>
    match cs with
    | [] => none
    | '"' :: rest =>
      (readText? (rest.length + 1) rest).map fun (s, rest) => (.str (String.ofList s), rest)
    | '[' :: rest =>
      match limits.inside?, skipBlanks rest with
      | none, _ => none
      | some _, ']' :: rest => some (.arr [], rest)
      | some inner, rest => (readItems? inner fuel rest).map fun (items, rest) => (.arr items, rest)
    | c :: rest =>
      if c == '\x7b' then
        match limits.inside?, skipBlanks rest with
        | none, _ | some _, [] => none
        | some inner, d :: rest =>
          if d == '\x7d' then some (.obj [], rest)
          else
            (readEntries? inner fuel (d :: rest)).map fun (fields, rest) =>
              (.obj (Fields.ofEntries fields), rest)
      else if c == 't' then readWord? "true" (.bool true) cs
      else if c == 'f' then readWord? "false" (.bool false) cs
      else if c == 'n' then readWord? "null" .null cs
      else (readNamed? limits cs).orElse fun _ => readNumber? limits cs

def readItems? (limits : Limits) : Nat → List Char → Option (List Json × List Char)
  | 0, _ => none
  | fuel + 1, cs =>
    match readValue? limits fuel cs with
    | none => none
    | some (v, rest) =>
      match skipBlanks rest with
      | ']' :: rest => some ([v], rest)
      | ',' :: rest =>
        (readItems? limits fuel (skipBlanks rest)).map fun (items, rest) => (v :: items, rest)
      | _ => none

def readEntries? (limits : Limits) : Nat → List Char → Option (List (String × Json) × List Char)
  | 0, _ => none
  | fuel + 1, cs =>
    match cs with
    | '"' :: rest =>
      match readText? (rest.length + 1) rest with
      | none => none
      | some (name, rest) =>
        match skipBlanks rest with
        | ':' :: rest =>
          match readValue? limits fuel (skipBlanks rest) with
          | none => none
          | some (v, rest) =>
            match skipBlanks rest with
            | [] => none
            | c :: rest =>
              if c == '\x7d' then some ([(String.ofList name, v)], rest)
              else if c == ',' then
                (readEntries? limits fuel (skipBlanks rest)).map fun (fields, rest) =>
                  ((String.ofList name, v) :: fields, rest)
              else none
        | _ => none
    | _ => none

end

/-- The value of a whole text. -/
def readChars? (limits : Limits) (cs : List Char) : Option Json :=
  match readValue? limits (2 * cs.length + 2) (skipBlanks cs) with
  | some (v, rest) => if (skipBlanks rest).isEmpty then some v else none
  | none => none

/-- The value of a JSON text, within limits. -/
def read? (limits : Limits) (s : String) : Option Json :=
  readChars? limits s.toList

end StacCatalog.Json
