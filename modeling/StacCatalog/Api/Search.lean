import StacCatalog.Api.Browse
import StacCatalog.Projection
import StacCatalog.Search.Request

/-!
# Searching the catalogue
-/

namespace StacCatalog.SearchApi

open Program

/-- Refuses a request, quoting what went wrong. -/
def orRefuse {α : Type} (p : Program α) (reason : String) : Program α :=
  p.recover fun fault => .fail (.http 400 (reason ++ fault.text))

/-- Adds the comparisons of one field. -/
def withField (backend : Backend) (search : Search) (entry : String × Json) : Outcome Search := do
  (← entry.2.entries).foldlM (fun search (op, value) =>
    search.withComparison backend (.str op) (.str ("properties__" ++ entry.1)) value) search

/-- Adds the comparisons of a query. -/
def withQuery (backend : Backend) (search : Search) (query : Json) : Outcome Search := do
  (← query.entries).foldlM (withField backend) search

/-- Whether a geometry counts as given. -/
def shapeGiven (geometry : Json) : Bool :=
  geometry.isObj || geometry.truthy

/-- The clauses of a request but for its filter and its words. -/
def plainClauses (ctx : Context) (request : SearchRequest) : Outcome Search := do
  let search := Search.empty
  let ids ← SearchRequest.need "ids" request.ids
  let search := if ids.truthy then search.withIds ids else search
  let collections ← SearchRequest.need "collections" request.collections
  let search := if collections.truthy then search.withCollections collections else search
  let search ← search.withInterval (.value (← SearchRequest.need "datetime" request.datetime))
  let bbox ← SearchRequest.need "bbox" request.bbox
  let search ← if bbox.truthy then do search.withBox (← Browse.flatBox bbox) else .ok search
  let intersects ← SearchRequest.need "intersects" request.intersects
  let search ← if shapeGiven intersects then search.withShape ctx.library intersects else .ok search
  let query ← SearchRequest.need "query" request.query
  if query.truthy then withQuery ctx.backend search query else return search

/-- All clauses of a request. -/
def clauses (ctx : Context) (request : SearchRequest) : Program Search := do
  let search ← plainClauses ctx request
  let search ← match request.filter with
    | some filter =>
      orRefuse (Searching.withFilter ctx search filter) "Error with cql2_json filter: "
    | none => pure search
  match request.words with
  | some words => orRefuse (ofOutcome (search.withWords words)) "Error with free text query: "
  | none => pure search

/-- The paths of one side of the fields that are asked for. -/
def fieldPaths (fields : Json) (side : String) : Outcome Json :=
  if !shapeGiven fields then .ok .null
  else
    match fields with
    | .obj entries => .ok (Fields.getD entries side)
    | v => .error (.noMember v.kindName side)

/-- An item with only the fields that are asked for. -/
def project (library : Library) (included excluded item : Json) : Outcome Json := do
  match item with
  | .obj fields => return .obj (← Projection.answer library included excluded fields).1
  | v => return v

/-- Searches the catalogue by a request: `post_search`. -/
def post (ctx : Context) (portal : Portal) (request : SearchRequest) (r : Request) :
    Program Json := do
  let search ← clauses ctx request
  let sort ← SortOrder.ofTerms (← SearchRequest.need "sortby" request.sortby)
  let limit ← SearchRequest.need "limit" request.limit
  let limit := if limit.truthy then limit else .int 10
  let token ← SearchRequest.need "token" request.token
  let collections ← SearchRequest.need "collections" request.collections
  let sort := (sort.map fun table => Json.obj table.toFields).getD .null
  let page ← Searching.page ctx search limit token sort collections (.bool true)
  let fields := if portal.extensions.contains "FieldsExtension" then request.fields.getD .null
      else .null
  let included ← fieldPaths fields "include"
  let excluded ← fieldPaths fields "exclude"
  let items ← page.hits.mapM fun hit => do
    project ctx.library included excluded
      (← Item.ofStored ctx.library r.baseUrl (← hit.item "_source"))
  Browse.itemsAnswer r items page

/-- Searches the catalogue by query parameters: `get_search`. `complaint` says what is wrong with a
request, if anything is. -/
def get (ctx : Context) (portal : Portal) (complaint : SearchRequest → Option String)
    (parameters : SearchParameters) (r : Request) : Program Json := do
  let request ← parameters.toRequest ctx.library
  match complaint request with
  | some text => .fail (.http 400 ("Invalid parameters provided: " ++ text))
  | none => post ctx portal request r

end StacCatalog.SearchApi
