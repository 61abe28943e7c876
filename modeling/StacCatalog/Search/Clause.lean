import StacCatalog.Geometry
import StacCatalog.Query
import StacCatalog.Search.SortOrder
import StacCatalog.Settings.Backend
import StacCatalog.Text.Case
import StacCatalog.Time.Interval

/-!
# Searches: conjunctions of clauses on items
-/

namespace StacCatalog

/-- A shape that items are to intersect. -/
structure Shape where
  type : String
  coordinates : Json
  deriving DecidableEq, Repr

/-- A condition on an item. -/
inductive Condition where
  | ids (values : Json)
  | collections (values : Json)
  /-- The time of the item, or the span it covers, overlaps these ends. -/
  | overlaps (ends : Time.Bounds)
  | intersects (shape : Shape)
  /-- The field has the value. -/
  | equals (field : String) (value : Json)
  /-- The field compares so with the value. -/
  | compares (field operator : String) (value : Json)
  /-- The properties contain the words, in the language of the database. -/
  | words (text : String)
  | filter (query : Query)
  deriving Repr

/-- How a condition counts. -/
inductive Role where
  | filter
  | query
  deriving DecidableEq, Repr

/-- A condition with the way it counts. -/
structure Clause where
  role : Role
  condition : Condition
  deriving Repr

/-- A search: all its clauses have to hold. -/
structure Search where
  clauses : List Clause
  deriving Repr, Inhabited

/-! ### The form for the database -/

namespace Condition

/-- The field is there. -/
def present (field : String) : Json :=
  .single "exists" (.single "field" (.str field))

/-- The field lies on one or two sides. -/
def within (field : String) (sides : Fields) : Json :=
  .single "range" (.single field (.obj sides))

/-- An end, `null` if it is open. -/
def endJson (e : Option String) : Json :=
  (e.map Json.str).getD .null

/-- The overlap of an item with two ends: its time lies between them, or it has no time and the span
it covers reaches between them. -/
def overlapJson (ends : Time.Bounds) : Json :=
  let gte := endJson ends.gte
  let lte := endJson ends.lte
  let instant := .single "bool" (.single "filter" (.arr [
    present "properties.datetime",
    within "properties__datetime" [("gte", gte), ("lte", lte)]]))
  let span := .single "bool" (.obj [
    ("must_not", .arr [present "properties.datetime"]),
    ("filter", .arr [
      present "properties.start_datetime",
      present "properties.end_datetime",
      within "properties__start_datetime" [("lte", lte)],
      within "properties__end_datetime" [("gte", gte)]])])
  .single "bool" (.obj [("should", .arr [instant, span]), ("minimum_should_match", .int 1)])

/-- The intersection with a shape. -/
def shapeJson (shape : Shape) : Json :=
  .single "geo_shape" (.single "geometry" (.obj [
    ("shape", .obj [("type", .str shape.type), ("coordinates", shape.coordinates)]),
    ("relation", .str "intersects")]))

def toJson : Condition → Json
  | .ids values => .single "terms" (.single "id" values)
  | .collections values => .single "terms" (.single "collection" values)
  | .overlaps ends => overlapJson ends
  | .intersects shape => shapeJson shape
  | .equals field value => .single "term" (.single field value)
  | .compares field operator value => within field [(operator, value)]
  | .words text => .single "query_string" (.single "query" (.str text))
  | .filter query => query.toJson

end Condition

namespace Clause

def toJson (c : Clause) : Json :=
  .single (match c.role with | .filter => "filter" | .query => "query") c.condition.toJson

end Clause

namespace Search

def empty : Search := ⟨[]⟩

/-- Adds a condition that only selects. -/
def filter (s : Search) (condition : Condition) : Search :=
  ⟨s.clauses ++ [⟨.filter, condition⟩]⟩

/-- Adds a condition that also ranks. -/
def query (s : Search) (condition : Condition) : Search :=
  ⟨s.clauses ++ [⟨.query, condition⟩]⟩

def clausesJson (s : Search) : Json :=
  .single "clauses" (.arr (s.clauses.map Clause.toJson))

/-! ### Adding the parts of a request -/

/-- Only items of some ids: `apply_ids_filter`. -/
def withIds (s : Search) (ids : Json) : Search :=
  s.filter (.ids ids)

/-- Only items of some collections: `apply_collections_filter`. -/
def withCollections (s : Search) (collections : Json) : Search :=
  s.filter (.collections collections)

/-- Whether an interval counts as given. -/
def intervalGiven : Time.IntervalArg → Bool
  | .moment _ => true
  | .tuple parts => !parts.isEmpty
  | .value v => v.truthy

/-- Only items whose time overlaps an interval: `apply_datetime_filter`. An interval that cannot be
read adds nothing. -/
def withInterval (s : Search) (interval : Time.IntervalArg) : Outcome Search :=
  if intervalGiven interval then
    match Time.bounds interval with
    | .ok ends => .ok (s.query (.overlaps ends))
    | .error (.invalid _) | .error (.wrongType _) => .ok s
    | .error fault => .error fault
  else .ok s

/-- Only items that intersect a box: `apply_bbox_filter`. -/
def withBox (s : Search) (box : Json) : Outcome Search := do
  let coordinates ← Geometry.polygonOf (← box.elements)
  return s.filter (.intersects ⟨"polygon", coordinates⟩)

/-- The shape of a geometry. A geometry without coordinates, such as a collection of geometries, may
have none. -/
def shapeOf (library : Library) (geometry : Json) : Outcome Shape :=
  match geometry with
  | .obj fields => do
    let type ← (← library.geometryPart fields "type").text "lower"
    return ⟨Text.lower type, ← library.geometryPart fields "coordinates"⟩
  | v => .error (.noMember v.kindName "type")

/-- Only items that intersect a geometry: `apply_intersects_filter`. -/
def withShape (s : Search) (library : Library) (geometry : Json) : Outcome Search := do
  return s.filter (.intersects (← shapeOf library geometry))

/-- The name of an operator as a key. -/
def operatorKey (backend : Backend) (operator : Json) : Outcome String :=
  match backend with
  | .elasticsearch => do
    operator.hashable
    return operator.keyName
  | .opensearch => .ok operator.display

/-- Only items whose field compares so with a value: `apply_stacql_filter`. -/
def withComparison (backend : Backend) (s : Search) (operator field value : Json) :
    Outcome Search := do
  if operator == .str "eq" then
    match field with
    | .str name => return s.filter (.equals name value)
    | _ => .error (.wrongType "keywords must be strings")
  else
    field.hashable
    let key ← operatorKey backend operator
    match field with
    | .str name => return s.filter (.compares name key value)
    | _ => .error (.wrongType "keywords must be strings")

/-- Joins texts that must all be texts. -/
def joinWords (position : Nat) : List Json → Outcome (List String)
  | [] => .ok []
  | .str s :: rest => do return s :: (← joinWords (position + 1) rest)
  | v :: _ => .error (.wrongType
      ("sequence item " ++ toString position ++ ": expected str instance, " ++
        v.kindName ++ " found"))

/-- The text by which the database looks for any of some words in the properties. -/
def wordsText (words : Json) : Outcome String := do
  match words.elements with
  | .ok parts =>
    let texts ← joinWords 0 parts
    return "properties.\\*:\"" ++ "\" OR properties.\\*:\"".intercalate texts ++ "\""
  | .error _ => .error (.wrongType "can only join an iterable")

/-- Only items whose properties contain one of some words: `apply_free_text_filter`. -/
def withWords (s : Search) (words : Json) : Outcome Search :=
  if words.isNull then .ok s
  else do return s.query (.words (← wordsText words))

/-- Only items that a query accepts. -/
def withFilter (backend : Backend) (s : Search) (query : Query) : Search :=
  match backend with
  | .elasticsearch => s.query (.filter query)
  | .opensearch => s.filter (.filter query)

end Search

end StacCatalog
