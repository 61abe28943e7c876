import StacCatalog.Json.Table
import StacCatalog.Json.Writer
import StacCatalog.Library
import StacCatalog.Text.Blank
import StacCatalog.Time.Iso

/-!
# A plain library
-/

namespace StacCatalog.Library

/-- The moment of a text in a request: `Z` stands for an offset of zero, wherever it is. -/
def readRequest (s : String) : Outcome Time.Moment :=
  let cs := Text.trimChars s.toList
  let spelled := cs.flatMap fun c => if c = 'Z' then "+00:00".toList else [c]
  match Time.readMoment? (String.ofList spelled) with
  | some m => .ok m
  | none => .error (.invalid "Invalid isoformat string")

/-- The whole text as a condition on the id. -/
def textCondition (value : Json) : Json :=
  .obj [("op", .str "="), ("args", .arr [.single "property" (.str "id"), value])]

/-! ### Links -/

/-- The two parts of an entry given as a pair. -/
def entryOf (position : Nat) (pair : Json) : Outcome (Json × Json) := do
  let parts ← match pair.elements with
    | .ok parts => .ok parts
    | .error _ => .error (.wrongType
        ("cannot convert dictionary update sequence element #" ++ toString position ++
          " to a sequence"))
  match parts with
  | [key, value] =>
    key.hashable
    return (key, value)
  | _ =>
    .error (.invalid ("dictionary update sequence element #" ++ toString position ++
      " has length " ++ toString parts.length ++ "; 2 is required"))

/-- The entries of a list of pairs, the first of which stands at `position`. -/
def entriesOf (position : Nat) : List Json → Outcome Json.Table
  | [] => .ok []
  | pair :: rest => do
    let entry ← entryOf position pair
    return entry :: (← entriesOf (position + 1) rest)

/-- The copy of a link: of an object, or of what can be read as a list of entries. -/
def copyLink (link : Json) : Outcome Json := do
  match link with
  | .obj entries => return .obj entries
  | other => return .obj (Json.Table.ofEntries (← entriesOf 0 (← other.elements))).toFields

/-- Copies of all the links of a list. -/
def copyLinks (links : Json) : Outcome (List Json) := do
  (← links.elements).mapM copyLink

/-- A link of a relation to an address. -/
def link (rel href : String) : Json :=
  .obj [("rel", .str rel), ("href", .str href)]

/-- The links of an item that follow from its place. -/
def madeLinks (baseUrl : String) (id collection : Json) : List Json :=
  let parent := baseUrl ++ "collections/" ++ collection.display
  [link "self" (parent ++ "/items/" ++ id.display), link "parent" parent, link "collection" parent,
   link "root" baseUrl]

/-- The text after the first `://`, if there is one. -/
def afterScheme? (cs : List Char) : Option (List Char) :=
  match cs with
  | ':' :: '/' :: '/' :: rest => some rest
  | _ :: rest => afterScheme? rest
  | [] => none

/-- A slash and all that follows the first slash after the host, a query included. -/
def pathAndQuery (url : String) : String :=
  let cs := url.toList
  String.ofList ('/' :: (((afterScheme? cs).getD cs).dropWhile (· != '/')).drop 1)

/-- The part of a geometry, or what stands for it if it is missing. -/
def partOrDefault (geometry : Fields) (name : String) : Outcome Json :=
  .ok ((Fields.get? geometry name).getD (if name = "type" then .str "Point" else .arr []))

/-- The plain library. A document stands for itself under the name `self`. -/
def plain : Library where
  readMoment := readRequest
  filterText value := .ok ((textCondition value).write .spaced)
  resolveLinks := copyLinks
  itemLinks := madeLinks
  reserved := some "self"
  urlPath := pathAndQuery
  geometryPart := partOrDefault

end StacCatalog.Library
