import StacCatalog.Database.Collections
import StacCatalog.Database.Searching
import StacCatalog.Text.Decimal

/-!
# Browsing the catalogue: its landing page, its collections, and the items of a collection
-/

namespace StacCatalog

/-- How the catalogue presents itself. -/
structure Portal where
  id : Json := .str "stac-fastapi"
  title : Json := .str "stac-fastapi"
  description : Json := .str "stac-fastapi"
  stacVersion : Json := .str "1.0.0"
  extensions : List String := []
  deriving Inhabited

namespace Browse

open Program

def integer (value : Json) : Outcome Int :=
  match value with
  | .int n => .ok n
  | .bool b => .ok (if b then 1 else 0)
  | .float x =>
    match x.truncate? with
    | some n => .ok n
    | none =>
      if x.isNaN then .error (.invalid "cannot convert float NaN to integer")
      else .error (.overflow "cannot convert float infinity to integer")
  | .str s =>
    match Text.readInt? s with
    | some n => .ok n
    | none => .error (.invalid ("invalid literal for int() with base 10: " ++ Text.quoted s))
  | v => .error (.wrongType
      ("int() argument must be a string, a bytes-like object or a real number, not '" ++
        v.kindName ++ "'"))

/-- A page of collections, and the links beside it: `all_collections`. -/
def collectionsPage (ctx : Context) (r : Request) : Program (List Json × List Json) := do
  let limit ← integer ((Fields.get? r.queryParams "limit").getD (.int 10))
  let token := Fields.getD r.queryParams "token"
  let (collections, token) ← Collections.page ctx token (.int limit) r
  let self ← Url.join r.baseUrl "collections"
  let links := [Links.root r, Links.link "parent" Links.json r.baseUrl,
      Links.link "self" Links.json self]
  let next ← if token.truthy then Links.next r token else pure []
  let next := if token.truthy && next.isEmpty then [.null] else next
  return (collections, links ++ next)

/-- Answers with a page of collections. -/
def collections (ctx : Context) (r : Request) : Program Json := do
  let (collections, links) ← collectionsPage ctx r
  return .obj [("collections", .arr collections), ("links", .arr links)]

/-- Answers with a collection: `get_collection`. -/
def collection (ctx : Context) (portal : Portal) (id : Json) (r : Request) : Program Json := do
  let found ← Collections.find ctx id
  Collection.ofStored ctx.library r portal.extensions found

/-! ### The landing page -/

def titled (rel type : String) (title : Json) (href : String) : Json :=
  .obj [("rel", .str rel), ("type", .str type), ("title", title), ("href", .str href)]

def homeLinks (r : Request) : Outcome (List Json) := do
  let address (name : String) : Outcome String := Url.join r.baseUrl name
  let data ← address "collections"
  let conformance ← address "conformance"
  let search ← address "search"
  let searchBy (method : String) : Json :=
    .obj [("rel", .str "search"), ("type", .str Links.geojson), ("title", .str "STAC search"),
      ("href", .str search), ("method", .str method)]
  return [
    Links.link "self" Links.json r.baseUrl,
    Links.root r,
    Links.link "data" Links.json data,
    titled "conformance" Links.json
      (.str "STAC/WFS3 conformance classes implemented by this server") conformance,
    searchBy "GET",
    searchBy "POST"]

def extensionLinks (portal : Portal) (r : Request) : Outcome (List Json) := do
  let queryables ←
    if portal.extensions.contains "FilterExtension" then
      pure [titled "queryables" "application/schema+json" (.str "Queryables")
        (← Url.join r.baseUrl "queryables")]
    else pure []
  let aggregations ←
    if portal.extensions.contains "AggregationExtension" then
      pure [titled "aggregate" Links.json (.str "Aggregate") (← Url.join r.baseUrl "aggregate"),
        titled "aggregations" Links.json (.str "Aggregations")
          (← Url.join r.baseUrl "aggregations")]
    else pure []
  return queryables ++ aggregations

def childLink (r : Request) (collection : Json) : Outcome Json := do
  let title ← collection.lookup "title"
  let id ← collection.lookup "id"
  let href ← Url.join r.baseUrl ("collections/" ++ (← collection.item "id").display)
  return titled "child" Links.json (if title.truthy then title else id) href

/-- The address of a page of the service, given where it is served: slashes at the front do not
count. -/
def serviceAddress (r : Request) : Option String → Outcome String
  | some place => Url.join r.baseUrl (String.ofList (place.toList.dropWhile (· == '/')))
  | none => .error (.noMember Json.null.kindName "lstrip")

/-- The landing page: links to all there is, and to each collection of the first page:
`landing_page`. -/
def landingPage (ctx : Context) (portal : Portal) (r : Request) : Program Json := do
  let home ← homeLinks r
  let extensions ← extensionLinks portal r
  let (collections, _) ← collectionsPage ctx r
  let children ← (collections.mapM (childLink r) : Outcome (List Json))
  let description ← serviceAddress r r.openapiUrl
  let documentation ← serviceAddress r r.docsUrl
  let service := [
    titled "service-desc" "application/vnd.oai.openapi+json;version=3.0"
      (.str "OpenAPI service description") description,
    titled "service-doc" "text/html" (.str "OpenAPI service documentation") documentation]
  return .obj [
    ("type", .str "Catalog"), ("id", portal.id), ("title", portal.title),
      ("description", portal.description),
    ("stac_version", portal.stacVersion), ("conformsTo", Json.ofStrings ["core"]),
    ("links", .arr (home ++ extensions ++ children ++ service)), ("stac_extensions", .arr [])]

/-- Answers with an item: `get_item`. -/
def item (ctx : Context) (collection id : Json) (r : Request) : Program Json := do
  let found ← Items.find ctx collection id
  Item.ofStored ctx.library r.baseUrl found

def coordinate (value : Json) : Outcome Json :=
  match value with
  | .int n =>
    let x := Binary64.ofInt n
    if x = Binary64.infinity (decide (n < 0)) then
      .error (.overflow "int too large to convert to float")
    else .ok (.float x)
  | .bool b => .ok (.float (Binary64.ofInt (if b then 1 else 0)))
  | .float x => .ok (.float x)
  | .str s =>
    match Text.readFloat? s with
    | some x => .ok (.float x)
    | none => .error (.invalid ("could not convert string to float: " ++ Text.quoted s))
  | v => .error (.wrongType
      ("float() argument must be a string or a real number, not '" ++ v.kindName ++ "'"))

/-- A box of six numbers without its heights. -/
def flatBox (box : Json) : Outcome Json := do
  if (← box.size) = 6 then
    return .arr [← box.nth 0, ← box.nth 1, ← box.nth 3, ← box.nth 4]
  else return box

/-- The answer that holds a page of items. -/
def itemsAnswer (r : Request) (items : List Json) (found : Searching.Found) : Outcome Json := do
  let links ← Links.paging r found.token
  return .obj [("type", .str "FeatureCollection"), ("features", .arr items), ("links", .arr links),
    ("numReturned", .int items.length), ("numMatched", found.matched)]

/-- Answers with a page of the items of a collection: `item_collection`. -/
def items (ctx : Context) (portal : Portal) (collectionId bbox datetime limit : Json)
    (r : Request) : Program Json := do
  let token := Fields.getD r.queryParams "token"
  let found ← collection ctx portal collectionId r
  let id ← found.lookup "id"
  if id.isNull then .fail (.http 404 "Collection not found")
  else
    let search := Search.empty.withCollections (.arr [id])
    let search ← search.withInterval (.value datetime)
    let search ← if bbox.truthy then do
        let box ← ((← bbox.elements).mapM coordinate : Outcome (List Json))
        search.withBox (← flatBox (.arr box))
      else pure search
    let page ← Searching.page ctx search limit token .null (.arr [id]) (.bool true)
    let items ← page.hits.mapM fun hit => do
      Item.ofStored ctx.library r.baseUrl (← hit.item "_source")
    itemsAnswer r items page

end Browse

end StacCatalog
