import StacCatalog.Json.Access
import StacCatalog.Json.Reader
import StacCatalog.Json.Writer

/-!
# Reading JSON that comes from outside: bodies, query parameters and configuration
-/

namespace StacCatalog.Json

/-- The value of a JSON text. -/
def parse (s : String) : Outcome Json :=
  match read? .strict s with
  | some v => .ok v
  | none => .error (.badJson "unexpected character")

/-- The value of a text that stands in a JSON value. -/
def parseText (value : Json) : Outcome Json :=
  match value with
  | .str s => parse s
  | _ => .error (.badJson "Input must be bytes, bytearray, memoryview, or str")

end StacCatalog.Json
