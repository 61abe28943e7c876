import StacCatalog.Database.Items

/-!
# The queryables: a description of the fields that a filter may speak of
-/

namespace StacCatalog

/-- The queryables as they have become. -/
structure Queryables where
  /-- The descriptions made beforehand, with what was filled in. -/
  known : List (String × Fields)
  /-- The published fields; `none` for one that is described beforehand. -/
  published : List (String × Option Fields)
  deriving DecidableEq, Repr, Inhabited

namespace Queryables

/-! ### What is described beforehand -/

/-- A description that refers to a schema. -/
def referring (description reference : String) : Fields :=
  [("description", .str description), ("$ref", .str reference)]

def percentage (title : String) : Fields :=
  [("title", .str title), ("description", .str title), ("type", .str "number"), ("minimum", .int 0),
   ("maximum", .int 100)]

/-- Where the schema of items is found. -/
def itemSchema : String := "https://schemas.stacspec.org/v1.0.0/item-spec/json-schema/"

/-- The fields that every collection has. -/
def standard : List (String × Fields) :=
  [("id", referring "ID" (itemSchema ++ "item.json#/definitions/core/allOf/2/properties/id")),
   ("collection", referring "Collection"
      (itemSchema ++ "item.json#/definitions/core/allOf/2/then/properties/collection")),
   ("geometry", referring "Geometry"
      (itemSchema ++ "item.json#/definitions/core/allOf/1/oneOf/0/properties/geometry")),
   ("datetime", referring "Acquisition Timestamp"
     (itemSchema ++ "datetime.json#/properties/datetime")),
   ("created", referring "Creation Timestamp" (itemSchema ++ "datetime.json#/properties/created")),
   ("updated", referring "Creation Timestamp" (itemSchema ++ "datetime.json#/properties/updated")),
   ("cloud_cover", referring "Cloud Cover"
      ("https://stac-extensions.github.io/eo/v1.0.0/schema.json" ++
        "#/definitions/fields/properties/eo:cloud_cover")),
   ("cloud_shadow_percentage", percentage "Cloud Shadow Percentage"),
   ("nodata_pixel_percentage", percentage "No Data Pixel Percentage")]

/-- The fields that some collections have. Those marked `$enum` list the values they take. -/
def optional : List (String × Fields) :=
  [("platform", [("$enum", .bool true), ("description", .str "Satellite platform identifier")])]

/-- The queryables before anything was asked. -/
def initial : Queryables :=
  ⟨standard ++ optional, standard.map fun entry => (entry.1, none)⟩

/-! ### Descriptions -/

/-- What a field is described by when it is met. -/
def describe (q : Queryables) (name : String) : Fields :=
  (q.known.lookup name).getD []

/-- Publishes a field under a description. -/
def publish (q : Queryables) (name : String) (description : Fields) : Queryables :=
  if (q.known.lookup name).isSome then
    ⟨Keyed.set q.known name description, Keyed.set q.published name none⟩
  else { q with published := Keyed.set q.published name (some description) }

/-- The fields with their descriptions. -/
def properties (q : Queryables) : Fields :=
  q.published.map fun (name, own) => (name, .obj (own.getD (q.describe name)))

/-- Adds a detail to a description that lacks it. -/
def detail (description : Fields) (name : String) (value : Json) : Fields :=
  if Fields.has description name then description else Fields.insert description name value

def titleOf (name : String) : String :=
  Text.title (String.ofList (name.toList.map fun c => if c = '_' then ' ' else c))

def jsonType (kind : Json) : Json :=
  match kind with
  | .str s => .str ((Mapping.jsonTypes.lookup s).getD s)
  | v => v

def isTime (kind : Json) : Bool :=
  kind == .str "date" || kind == .str "date_nanos"

/-! ### The fields of a mapping -/

/-- A field: its full name and its definition. -/
abbrev FieldDef := String × Json

/-- Joins two lists of levels, level by level. -/
def joinLevels (a b : List (List FieldDef)) : List (List FieldDef) :=
  match a, b with
  | [], b => b
  | a, [] => a
  | x :: xs, y :: ys => (x ++ y) :: joinLevels xs ys

/-- The full name of a field below another. -/
def fullName (parent : Option String) (name : String) : String :=
  match parent with
  | some p => p ++ "." ++ name
  | none => name

mutual

/-- The levels of fields below a definition. -/
def levelsBelow (parent : String) : Json → List (List FieldDef)
  | .obj entries => levelsInside parent entries
  | _ => []

/-- The levels below the entry `properties`. -/
def levelsInside (parent : String) : List (String × Json) → List (List FieldDef)
  | [] => []
  | (k, v) :: rest => if k = "properties" then levelsOf parent v else levelsInside parent rest

/-- The levels of an object of fields. -/
def levelsOf (parent : String) : Json → List (List FieldDef)
  | .obj children => fieldLevels (some parent) children
  | _ => []

/-- The fields of a mapping, level by level. -/
def fieldLevels (parent : Option String) : List (String × Json) → List (List FieldDef)
  | [] => []
  | (k, v) :: rest =>
    joinLevels ([(fullName parent k, v)] :: levelsBelow (fullName parent k) v)
      (fieldLevels parent rest)

end

/-- All fields of a mapping, the upper levels first. -/
def allFields (top : Fields) : List FieldDef :=
  (fieldLevels none top).flatten

/-- The name by which a filter speaks of a field: without `properties.` at its front. -/
def publicName (field : String) : String :=
  if field.startsWith "properties." then String.ofList (field.toList.drop 11) else field

/-- What is met in one field: nothing to publish, or a kind. -/
def kindOf (definition : Json) : Outcome (Option Json) := do
  let below ← definition.lookup "properties"
  if below.truthy then
    let _ ← below.entries
  let kind ← definition.lookup "type"
  let enabled ← definition.lookupD "enabled" (.bool true)
  return if kind.truthy && enabled.truthy then some kind else none

/-- Publishes a field of a kind; whether its values are to be listed. -/
def meet (q : Queryables) (name : String) (kind : Json) : Outcome Bool × Queryables :=
  let description := detail (q.describe name) "title" (.str (titleOf name))
  match kind.hashable with
  | .error fault => (.error fault, q.publish name description)
  | .ok () =>
    let description := detail description "type" (jsonType kind)
    let description := if isTime kind then detail description "format" (.str "date-time")
        else description
    let listed := (Fields.getD description "$enum").truthy
    (.ok listed, q.publish name (Fields.erase description "$enum"))

/-- Meets fields one after the other; those whose values are to be listed, and the queryables
afterwards, also if a field stops the walk. -/
def meetAll (q : Queryables) : List FieldDef → Outcome (List String) × Queryables
  | [] => (.ok [], q)
  | (field, definition) :: rest =>
    match kindOf definition with
    | .error fault => (.error fault, q)
    | .ok none => meetAll q rest
    | .ok (some kind) =>
      match meet q (publicName field) kind with
      | (.error fault, q) => (.error fault, q)
      | (.ok listed, q) =>
        let (others, q) := meetAll q rest
        (others.map fun fields => if listed then field :: fields else fields, q)

/-- Adds the values that fields take to their descriptions. -/
def listValues (q : Queryables) (listed : List String) :
    List (String × Json) → Outcome Unit × Queryables
  | [] => (.ok (), q)
  | (field, values) :: rest =>
    if listed.contains field then
      let name := publicName field
      listValues (q.publish name (Fields.insert (q.describe name) "enum" values)) listed rest
    else (.error (.missingKey (.str field)), q)

def toJson (q : Queryables) (additional : Bool) : Json :=
  .obj [
    ("$schema", .str "https://json-schema.org/draft/2019-09/schema"),
    ("$id", .str "https://stac-api.example.com/queryables"),
    ("type", .str "object"),
    ("title", .str "Queryables for STAC API"),
    ("description", .str "Queryable names for the STAC API Item Search filter."),
    ("properties", .obj q.properties),
    ("additionalProperties", .bool additional)]

/-- The fields of the first mapping. -/
def topFields (mappings : Json) : Outcome Fields :=
  match mappings with
  | .obj [] => .error .exhausted
  | .obj ((_, first) :: _) => do
    (← (← first.item "mappings").item "properties").entries
  | v => .error (.noMember v.kindName "values")

/-- Runs a program and keeps what comes of it, good or bad. -/
def attempt {α : Type} (p : Program α) : Program (Outcome α) :=
  (p.bind fun a => .done (.ok a)).recover fun fault => .done (.error fault)

/-- The queryables of a collection, or of the catalogue as a whole, and the queryables afterwards:
`get_queryables`. -/
def get (ctx : Context) (q : Queryables) (collection : Json) :
    Program (Outcome Json × Queryables) := do
  if !collection.truthy then return (.ok (q.toJson true), q)
  else
    match ← attempt (do topFields (← Items.mapping ctx collection)) with
    | .error fault => return (.error fault, q)
    | .ok top =>
      match q.meetAll (allFields top) with
      | (.error fault, q) => return (.error fault, q)
      | (.ok [], q) => return (.ok (q.toJson false), q)
      | (.ok listed, q) =>
        match ← attempt (Items.uniqueValues ctx collection (Json.ofStrings listed) (.int 100)) with
        | .error fault => return (.error fault, q)
        | .ok values =>
          match q.listValues listed values with
          | (.error fault, q) => return (.error fault, q)
          | (.ok (), q) => return (.ok (q.toJson false), q)

end Queryables

end StacCatalog
