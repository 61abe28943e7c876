import StacCatalog.Request
import StacCatalog.Url.Join
import StacCatalog.Url.Query

/-!
# The links of answers
-/

namespace StacCatalog

namespace Links

/-- The media type of JSON. -/
def json : String := "application/json"

/-- The media type of GeoJSON. -/
def geojson : String := "application/geo+json"

/-- The kinds of links that are made anew for each answer. -/
def inferred : List String :=
  ["self", "item", "parent", "collection", "root"]

def link (rel type href : String) : Json :=
  .obj [("rel", .str rel), ("type", .str type), ("href", .str href)]

/-- The link to the catalogue: `link_root`. -/
def root (r : Request) : Json :=
  link "root" json r.baseUrl

/-- The links of every answer: `BaseLinks`. -/
def base (r : Request) : List Json :=
  [root r, link "self" json r.url]

/-- The links of a collection: `CollectionLinks`. -/
def collection (r : Request) (id : String) (extensions : List String) : Outcome (List Json) := do
  let address (tail : String) : Outcome String := Url.join r.baseUrl ("collections/" ++ id ++ tail)
  let aggregate ←
    if extensions.contains "AggregationExtension" then
      pure [link "aggregate" json (← address "/aggregate"), link "aggregations" json
        (← address "/aggregations")]
    else pure []
  let items := link "items" geojson (← address "/items")
  let queryables ←
    if extensions.contains "FilterExtension" then
      pure [link "queryables" json (← address "/queryables")]
    else pure []
  let self := link "self" json (← address "")
  return aggregate ++ [items, link "parent" json r.baseUrl] ++ queryables ++ [root r, self]

/-- The link to the next page: the same request with the token put in: `link_next`. -/
def next (r : Request) (token : Json) : Outcome (List Json) := do
  if token.isNull then return []
  else if r.method = "GET" then
    let href ← Url.setParams r.url [("token", token)]
    return [.obj [("rel", .str "next"), ("type", .str json), ("method", .str r.method),
      ("href", .str href)]]
  else if r.method = "POST" then
    match r.body with
    | .obj body =>
      return [.obj [("rel", .str "next"), ("type", .str json), ("method", .str r.method),
        ("href", .str r.url), ("body", .obj (Fields.insert body "token" token))]]
    | other => .error (.wrongType ("'" ++ other.kindName ++ "' object is not a mapping"))
  else return []

/-- The links of a page: `PagingLinks`. -/
def paging (r : Request) (token : Json) : Outcome (List Json) := do
  return (← next r token) ++ base r

/-- An address, resolved against the address of the catalogue. -/
def resolve (r : Request) (href : Json) : Outcome String :=
  Url.join r.baseUrl href.display

/-- A stored link with its address resolved, unless it is of a kind that is made anew. -/
def stored (r : Request) (entry : Json) : Outcome (Option Json) := do
  let rel ← entry.item "rel"
  rel.hashable
  if inferred.any (fun kind => rel == .str kind) then return none
  else
    let href ← resolve r (← entry.item "href")
    return some (← entry.setItem "href" (.str href))

/-- The links that are made, and then those that are stored: `get_links`. -/
def withStored (r : Request) (made : List Json) (extra : Json) : Outcome (List Json) := do
  if extra.truthy then
    let kept ← (← extra.elements).mapM (stored r)
    return made ++ kept.filterMap id
  else return made

end Links

end StacCatalog
