import StacCatalog.Filter.Language
import StacCatalog.Time.Interval

/-!
# Search requests, and the query parameters that stand for them
-/

namespace StacCatalog

/-- A request to search, in a body. -/
structure SearchRequest where
  ids : Option Json := some .null
  collections : Option Json := some .null
  datetime : Option Json := some .null
  bbox : Option Json := some .null
  intersects : Option Json := some .null
  query : Option Json := some .null
  filter : Option Json := some .null
  words : Option Json := some .null
  sortby : Option Json := some .null
  limit : Option Json := some .null
  token : Option Json := some .null
  fields : Option Json := some .null
  deriving DecidableEq, Repr, Inhabited

namespace SearchRequest

/-- The value of a member that is asked for. -/
def need (name : String) (member : Option Json) : Outcome Json :=
  match member with
  | some v => .ok v
  | none => .error (.noMember "SearchRequest" name)

/-- The sort terms of a request: if the first is an object, all must be. -/
def checkTerms (terms : Json) : Outcome Unit :=
  match terms with
  | .arr (.obj _ :: rest) =>
    if rest.all Json.isObj then .ok ()
      else .error (.wrongType "argument after ** must be a mapping")
  | _ => .ok ()

/-- The request of the given members; `lacking` are the members that the service does not have. -/
def ofFields (fields : Fields) (lacking : List String) : Outcome SearchRequest := do
  let part (name : String) : Option Json :=
    if lacking.contains name then none else some (Fields.getD fields name)
  checkTerms (Fields.getD fields "sortby")
  let filter := (Fields.get? fields "filter_expr").getD (Fields.getD fields "filter")
  return {
    ids := part "ids", collections := part "collections", bbox := part "bbox"
    datetime := part "datetime", intersects := part "intersects", query := part "query"
    filter := if lacking.contains "filter_expr" then none else some filter
    words := part "q", sortby := part "sortby", limit := part "limit", token := part "token"
    fields := part "fields" }

end SearchRequest

/-! ### Query parameters -/

/-- A request to search, by query parameters. -/
structure SearchParameters where
  collections : Json := .null
  ids : Json := .null
  bbox : Json := .null
  datetime : Json := .null
  limit : Json := .int 10
  query : Json := .null
  token : Json := .null
  fields : Json := .null
  sortby : Json := .null
  words : Json := .null
  intersects : Json := .null
  filter : Json := .null
  filterLanguage : Json := .null
  deriving DecidableEq, Repr, Inhabited

namespace SearchParameters

def ofFields (fields : Fields) : SearchParameters :=
  let part := Fields.getD fields
  { collections := part "collections", ids := part "ids", bbox := part "bbox"
    datetime := part "datetime", limit := (Fields.get? fields "limit").getD (.int 10)
    query := part "query", token := part "token", fields := part "fields"
    sortby := part "sortby", words := part "q", intersects := part "intersects"
    filter := part "filter_expr", filterLanguage := part "filter_lang" }

/-- The first part of a sort or field term, and the rest after it. -/
def splitTerm (term : Json) : Outcome (Json × Json) :=
  match term with
  | .str s =>
    match s.toList with
    | c :: rest => .ok (.str (String.singleton c), .str (String.ofList rest))
    | [] => .error (.outOfRange "string index out of range")
  | .arr (v :: rest) => .ok (v, .arr rest)
  | .arr [] => .error (.outOfRange "list index out of range")
  | v => .error (Json.notSubscriptable v)

/-- A sort term: a sign and a field. A minus means descending order. -/
def sortTerm (term : Json) : Outcome Json := do
  let (sign, field) ← splitTerm term
  let direction := if sign == .str "-" then "desc" else "asc"
  return .obj [("field", field), ("direction", .str direction)]

/-- The fields to include and to exclude. -/
structure FieldTerms where
  included : List String := []
  excluded : List String := []

/-- Adds a field term: a field after a minus is excluded, any other included. A plus, or the blank
that a plus becomes, is passed over. -/
def addFieldTerm (terms : FieldTerms) (term : Json) : Outcome FieldTerms :=
  match term with
  | .str s =>
    match s.toList with
    | '-' :: rest => .ok { terms with excluded := terms.excluded ++ [String.ofList rest] }
    | '+' :: rest | ' ' :: rest =>
      .ok { terms with included := terms.included ++ [String.ofList rest] }
    | _ :: _ => .ok { terms with included := terms.included ++ [s] }
    | [] => .error (.outOfRange "string index out of range")
  | .arr [] => .error (.outOfRange "list index out of range")
  | .arr _ => .error (.wrongType "unhashable type: 'list'")
  | .obj _ => .error (.missingKey (.int 0))
  | v => .error (Json.notSubscriptable v)

/-- The field terms of a request, as they stand in a POST request. -/
def fieldTerms (terms : Json) : Outcome Json := do
  let read ← (← terms.elements).foldlM addFieldTerm {}
  return .obj [("include", Json.ofStrings read.included.eraseDups),
    ("exclude", Json.ofStrings read.excluded.eraseDups)]

/-- The value if it counts as given, brought into another shape; else `null`. -/
def whenGiven (value : Json) (f : Json → Outcome Json) : Outcome Json :=
  if value.truthy then f value else .ok .null

/-- The filter of the parameters. -/
def filterOf (library : Library) (p : SearchParameters) : Outcome Json :=
  whenGiven p.filter fun filter =>
    if p.filterLanguage == .str "cql2-json" then Filter.ofParameter filter
    else Filter.ofText library filter

/-- The request that parameters stand for. -/
def toRequest (library : Library) (p : SearchParameters) : Outcome SearchRequest := do
  let query ← if p.query.truthy then p.query.parseText else .ok p.query
  let datetime ← whenGiven p.datetime fun v => do return .str (← Time.normalRange library v)
  let intersects ← whenGiven p.intersects Filter.ofParameter
  let sortby ← whenGiven p.sortby fun v => do return .arr (← (← v.elements).mapM sortTerm)
  let filter ← p.filterOf library
  let fields ← whenGiven p.fields fieldTerms
  return {
    ids := some p.ids, collections := some p.collections, bbox := some p.bbox
    datetime := some datetime, intersects := some intersects, query := some query
    filter := some filter, words := some p.words
    sortby := some sortby, limit := some p.limit, token := some p.token, fields := some fields }

end SearchParameters

end StacCatalog
