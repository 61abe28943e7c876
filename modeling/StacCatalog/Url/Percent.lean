import StacCatalog.Text.Utf8

/-!
# Percent escapes of URL queries: a byte as `%XX`, a blank as `+`
-/

namespace StacCatalog.Url

/-- The characters that stand for themselves. -/
def isPlain (n : Nat) : Bool :=
  (48 ≤ n && n ≤ 57) || (65 ≤ n && n ≤ 90) || (97 ≤ n && n ≤ 122) ||
    n == 95 || n == 46 || n == 45 || n == 126

def upperHex (n : Nat) : Char :=
  if n < 10 then Char.ofNat (48 + n) else Char.ofNat (55 + n)

/-- A byte as it stands in a query. -/
def escapeByte (b : Nat) : List Char :=
  if isPlain b then [Char.ofNat b]
  else if b == 32 then ['+']
  else ['%', upperHex (b / 16), upperHex (b % 16)]

/-- A text as it stands in a query. -/
def escape (s : String) : List Char :=
  (Text.utf8 s).flatMap escapeByte

/-- The bytes of an ASCII text with its percent escapes resolved; a `%` that starts no escape stands
for itself. The number counts the characters of an escape that are still to be skipped. -/
def unescapeBytes : Nat → List Char → List Nat
  | _, [] => []
  | skip + 1, _ :: rest => unescapeBytes skip rest
  | 0, c :: rest =>
    match c, rest with
    | '%', a :: b :: _ =>
      match Text.hexValue? a, Text.hexValue? b with
      | some x, some y => (x * 16 + y) :: unescapeBytes 2 rest
      | _, _ => 37 :: unescapeBytes 0 rest
    | _, _ => c.toNat :: unescapeBytes 0 rest

/-- Resolves the escapes of a run of ASCII characters. -/
def unescapeRun (run : List Char) : List Char :=
  Text.decodeLossy (unescapeBytes 0 run)

/-- Resolves percent escapes. The bytes of each run of ASCII characters are read as UTF-8 on their
own. `run` holds the current run, reversed. -/
def unescapeFrom (run : List Char) : List Char → List Char
  | [] => unescapeRun run.reverse
  | c :: rest =>
    if c.toNat < 128 then unescapeFrom (c :: run) rest
    else unescapeRun run.reverse ++ c :: unescapeFrom [] rest

/-- A text that stands in a query: `+` is a blank, then percent escapes are resolved. -/
def unescape (cs : List Char) : String :=
  String.ofList (unescapeFrom [] (cs.map fun c => if c = '+' then ' ' else c))

end StacCatalog.Url
