import StacCatalog.Json.Access
import StacCatalog.Url.Parts
import StacCatalog.Url.Percent

/-!
# The query of a URL as parameters with their values
-/

namespace StacCatalog.Url

/-- Adds a value to those of a parameter. -/
def addValue (params : Fields) (name value : String) : Fields :=
  match Fields.get? params name with
  | some (.arr values) => Fields.insert params name (.arr (values ++ [.str value]))
  | _ => Fields.insert params name (.arr [.str value])

/-- A parameter with its value, if it has one. -/
def readPair? (cs : List Char) : Option (String × String) :=
  match cut '=' cs with
  | (name, some value) => if value.isEmpty then none else some (unescape name, unescape value)
  | _ => none

/-- The parameters of a query, each with the array of its values. -/
def readQuery (query : List Char) : Fields :=
  ((query.splitOn '&').filterMap readPair?).foldl (fun params (name, value) =>
    addValue params name value) []

/-- The texts that a parameter is written with: one for each part of a value that has parts. -/
def valueTexts (value : Json) : List String :=
  match value with
  | .str s => [s]
  | .arr items => items.map Json.display
  | .obj fields => Fields.names fields
  | v => [v.display]

/-- The query of some parameters. -/
def writeQuery (params : Fields) : List Char :=
  let pairs := params.flatMap fun (name, value) =>
    (valueTexts value).map fun text => escape name ++ '=' :: escape text
  List.intercalate ['&'] pairs

/-- Sets parameters of a URL and leaves the others: `merge_params`. -/
def setParams (url : String) (params : Fields) : Outcome String := do
  let p ← Parts.read [] url.toList
  let query := writeQuery (Fields.insertAll (readQuery p.query) params)
  return String.ofList { p with query }.write

end StacCatalog.Url
