import StacCatalog.Json.Basic
import StacCatalog.Number.Layout
import StacCatalog.Text.Hex
import StacCatalog.Text.Printable

/-!
# Values inside messages
-/

namespace StacCatalog

namespace Text

/-- A character inside quotes. -/
def quotedChar (quote c : Char) : List Char :=
  if c == quote || c == '\\' then ['\\', c]
  else if c == '\n' then ['\\', 'n']
  else if c == '\r' then ['\\', 'r']
  else if c == '\t' then ['\\', 't']
  else if isPrintable c then [c]
  else if c.toNat < 0x100 then '\\' :: 'x' :: hexDigits 2 c.toNat
  else if c.toNat < 0x10000 then '\\' :: 'u' :: hexDigits 4 c.toNat
  else '\\' :: 'U' :: hexDigits 8 c.toNat

/-- A text in quotes. -/
def quoted (s : String) : String :=
  let cs := s.toList
  let quote := if cs.contains '\'' && !cs.contains '"' then '"' else '\''
  String.ofList (quote :: cs.flatMap (quotedChar quote) ++ [quote])

end Text

namespace Json

mutual

/-- A value inside a message, texts in quotes. -/
def quoted : Json → String
  | .null => "None"
  | .bool true => "True"
  | .bool false => "False"
  | .int n => toString n
  | .float x => Layout.plain.render x
  | .str s => Text.quoted s
  | .arr items => "[" ++ ", ".intercalate (quotedItems items) ++ "]"
  | .obj fields => "\x7b" ++ ", ".intercalate (quotedFields fields) ++ "\x7d"

/-- The elements of an array inside a message. -/
def quotedItems : List Json → List String
  | [] => []
  | v :: rest => v.quoted :: quotedItems rest

/-- The entries of an object inside a message. -/
def quotedFields : List (String × Json) → List String
  | [] => []
  | (k, v) :: rest => (Text.quoted k ++ ": " ++ v.quoted) :: quotedFields rest

end

/-- A value inside a message; a text stands without quotes. -/
def display : Json → String
  | .str s => s
  | v => v.quoted

/-- The name by which messages refer to the kind of a value. -/
def kindName : Json → String
  | .null => "NoneType"
  | .bool _ => "bool"
  | .int _ => "int"
  | .float _ => "float"
  | .str _ => "str"
  | .arr _ => "list"
  | .obj _ => "dict"

end Json

end StacCatalog
