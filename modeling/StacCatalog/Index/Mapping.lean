import StacCatalog.Json.Access

/-!
# The field mappings with which indices are created, and reading a mapping back
-/

namespace StacCatalog

namespace Mapping

def kind (name : String) : Json :=
  .single "type" (.str name)

/-- A field that is stored and not searched. -/
def disabled : Json :=
  .obj [("type", .str "object"), ("enabled", .bool false)]

/-- A rule for fields that appear later: those of a name, or of a type of value, or both. -/
def rule (title : String) (type : Option String) (name : Option String) (mapping : Json) : Json :=
  .single title (.obj ((type.map fun t => ("match_mapping_type", Json.str t)).toList ++
    (name.map fun n => ("match", Json.str n)).toList ++ [("mapping", mapping)]))

/-- The rules for fields that appear later: `ES_MAPPINGS_DYNAMIC_TEMPLATES`. -/
def rules : Json :=
  .arr [
    rule "descriptions" (some "string") (some "description") (kind "text"),
    rule "titles" (some "string") (some "title") (kind "text"),
    rule "proj_epsg" none (some "proj:epsg") (kind "integer"),
    rule "proj_projjson" none (some "proj:projjson") disabled,
    rule "proj_centroid" none (some "proj:centroid") (kind "geo_point"),
    rule "proj_geometry" none (some "proj:geometry") disabled,
    rule "no_index_href" none (some "href") (.obj [("type", .str "text"), ("index", .bool false)]),
    rule "strings" (some "string") none (kind "keyword"),
    rule "long_to_double" (some "long") none (kind "double"),
    rule "double_to_double" (some "double") none (kind "double")]

def ofFields (fields : Fields) : Json :=
  .obj [("numeric_detection", .bool false), ("dynamic_templates", rules),
    ("properties", .obj fields)]

/-- The mapping of items: `ES_ITEMS_MAPPINGS`. -/
def items : Json :=
  ofFields [
    ("id", kind "keyword"),
    ("collection", kind "keyword"),
    ("geometry", kind "geo_shape"),
    ("assets", disabled),
    ("links", disabled),
    ("properties", .obj [
      ("type", .str "object"),
      ("properties", .obj [
        ("datetime", kind "date"),
        ("start_datetime", kind "date"),
        ("end_datetime", kind "date"),
        ("created", kind "date"),
        ("updated", kind "date"),
        ("sat:absolute_orbit", kind "integer"),
        ("sat:relative_orbit", kind "integer")])])]

/-- The mapping of collections: `ES_COLLECTIONS_MAPPINGS`. -/
def collections : Json :=
  ofFields [
    ("id", kind "keyword"),
    ("extent.spatial.bbox", kind "long"),
    ("extent.temporal.interval", kind "date"),
    ("providers", disabled),
    ("links", disabled),
    ("item_assets", disabled)]

/-- The JSON type of the values of a kind of field, for those kinds that have one. -/
def jsonTypes : List (String × String) :=
  [("date", "string"), ("date_nanos", "string"), ("keyword", "string"),
    ("match_only_text", "string"),
   ("text", "string"), ("wildcard", "string"), ("byte", "number"), ("double", "number"),
   ("float", "number"), ("half_float", "number"), ("long", "number"), ("scaled_float", "number"),
   ("short", "number"), ("token_count", "number"), ("unsigned_long", "number"),
     ("geo_point", "object"),
   ("geo_shape", "object"), ("nested", "array")]

/-- Takes the fields below `properties` out of the fields of a mapping: those fields, and the rest.
-/
def takeProperties (fields : Json) : Outcome (Json × Json) :=
  match fields with
  | .obj entries =>
    .ok ((Fields.get? entries "properties").getD (.obj []),
      .obj (Fields.erase entries "properties"))
  | .arr _ => .error (.wrongType "pop expected at most 1 argument, got 2")
  | v => .error (.noMember v.kindName "pop")

def namesOf (value : Json) : Outcome (List String) :=
  match value with
  | .obj entries => .ok (Fields.names entries)
  | v => .error (.noMember v.kindName "keys")

/-- The names by which a filter may speak of the fields of one index, with the fields they stand
for, added to those known already; and the mapping without the fields below `properties`. -/
def indexQueryables (known : Fields) (mapping : Json) : Outcome (Fields × Json) := do
  let inner ← mapping.item "mappings"
  let fields ← inner.lookupD "properties" (.obj [])
  let (properties, rest) ← takeProperties fields
  let below ← namesOf (← properties.lookupD "properties" (.obj []))
  let top ← rest.elements
  let known := top.foldl (fun acc name => Fields.insert acc name.display name) known
  let known := below.foldl (fun acc name => Fields.insert acc name (.str ("properties." ++ name)))
      known
  let left := match inner with
    | .obj entries =>
      if Fields.has entries "properties" then Json.obj (Fields.insert entries "properties" rest)
        else inner
    | v => v
  return (known, ← mapping.setItem "mappings" left)

/-- The names of all indices of a list, and their mappings afterwards. -/
def allQueryables (known : Fields) : List (String × Json) → Outcome (Fields × Fields)
  | [] => .ok (known, [])
  | (index, mapping) :: rest => do
    let (known, mapping) ← indexQueryables known mapping
    let (known, others) ← allQueryables known rest
    return (known, (index, mapping) :: others)

/-- The names by which a filter may speak of the fields of indices, and the mappings afterwards:
`get_queryables_mapping_shared`. A field below `properties` is named without saying so, and wins
over a field of that name outside. -/
def queryables (mappings : Json) : Outcome (Fields × Json) :=
  match mappings with
  | .obj entries => do
    let (known, left) ← allQueryables [] entries
    return (known, .obj left)
  | v => .error (.noMember v.kindName "values")

end Mapping

end StacCatalog
