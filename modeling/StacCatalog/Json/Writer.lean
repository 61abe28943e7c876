import StacCatalog.Json.Basic
import StacCatalog.Number.Layout
import StacCatalog.Text.Hex

/-!
# Json.Writer
-/

namespace StacCatalog

/-- The decisions of a JSON writer. -/
structure Json.Style where
  comma : String
  colon : String
  /-- Whether characters outside ASCII are escaped. -/
  ascii : Bool
  layout : Layout
  /-- Whether numbers that are not finite are written by name; else they are `null`. -/
  infinities : Bool

namespace Json

/-- Blanks after the separators, ASCII only. -/
def Style.spaced : Style := ⟨", ", ": ", true, .plain, true⟩

/-- No blanks, all characters. -/
def Style.tight : Style := ⟨",", ":", false, .compact, false⟩

/-- A character as an escape. -/
def unitEscape (n : Nat) : List Char :=
  '\\' :: 'u' :: Text.hexDigits 4 n

def Style.char (style : Style) (c : Char) : List Char :=
  let n := c.toNat
  if c == '"' || c == '\\' then ['\\', c]
  else if c == '\n' then ['\\', 'n']
  else if c == '\r' then ['\\', 'r']
  else if c == '\t' then ['\\', 't']
  else if n == 8 then ['\\', 'b']
  else if n == 12 then ['\\', 'f']
  else if n < 32 then unitEscape n
  else if style.ascii && 126 < n then
    if n < 0x10000 then unitEscape n
    else unitEscape (0xD800 + (n - 0x10000) / 1024) ++ unitEscape (0xDC00 + (n - 0x10000) % 1024)
  else [c]

def Style.text (style : Style) (s : String) : String :=
  String.ofList ('"' :: s.toList.flatMap style.char ++ ['"'])

def Style.number (style : Style) (x : Binary64) : String :=
  match x.view with
  | .finite .. => style.layout.render x
  | .nan => if style.infinities then "NaN" else "null"
  | .infinite negative =>
    if !style.infinities then "null" else if negative then "-Infinity" else "Infinity"

mutual

/-- The JSON text of a value. -/
def write (style : Style) : Json → String
  | .null => "null"
  | .bool true => "true"
  | .bool false => "false"
  | .int n => toString n
  | .float x => style.number x
  | .str s => style.text s
  | .arr items => "[" ++ style.comma.intercalate (writeItems style items) ++ "]"
  | .obj fields => "\x7b" ++ style.comma.intercalate (writeFields style fields) ++ "\x7d"

/-- The texts of the elements of an array. -/
def writeItems (style : Style) : List Json → List String
  | [] => []
  | v :: rest => write style v :: writeItems style rest

/-- The texts of the entries of an object. -/
def writeFields (style : Style) : List (String × Json) → List String
  | [] => []
  | (k, v) :: rest => (style.text k ++ style.colon ++ write style v) :: writeFields style rest

end

end Json

end StacCatalog
