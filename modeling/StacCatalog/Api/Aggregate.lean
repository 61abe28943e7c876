import StacCatalog.Aggregation.Format
import StacCatalog.Api.Search

/-!
# Aggregating items
-/

namespace StacCatalog.AggregateApi

open Program

/-- The links beside the aggregations that are offered. -/
def offerLinks (baseUrl : String) (collection : Json) : Outcome (List Json) := do
  let root := Links.link "root" Links.json baseUrl
  if collection.isNull then
    return [root, Links.link "self" Links.json (← Url.join baseUrl "aggregations")]
  else
    let endpoint ← Url.join baseUrl ("collections/" ++ collection.display)
    return [root, Links.link "collection" Links.json endpoint,
      Links.link "self" Links.json (← Url.join (endpoint ++ "/") "aggregations")]

/-- The aggregations that a collection offers, or the catalogue. -/
def offers (ctx : Context) (collection : Json) : Program Json := do
  if collection.isNull then return .arr Aggregation.standard
  else
    Items.checkCollection ctx collection
    (← Collections.find ctx collection).lookupD "aggregations" (.arr Aggregation.standard)

/-- Lists what can be aggregated: `get_aggregations`. -/
def list (ctx : Context) (collection : Json) (baseUrl : String) : Program Json := do
  let links ← offerLinks baseUrl collection
  let offered ← offers ctx collection
  return .obj [("type", .str "AggregationCollection"), ("aggregations", offered),
    ("links", .arr links)]

/-! ### Requests -/

/-- A request to aggregate, in a body. -/
structure AggregateRequest where
  collections : Json := .null
  ids : Json := .null
  datetime : Json := .null
  bbox : Json := .null
  intersects : Json := .null
  filter : Json := .null
  aggregations : Json := .null
  precision : Aggregation.Grid → Json := fun _ => .null
  interval : Json := .null

def precisionName (g : Aggregation.Grid) : String :=
  g.name ++ "_precision"

def AggregateRequest.ofFields (fields : Fields) : Outcome AggregateRequest := do
  SearchRequest.checkTerms (Fields.getD fields "sortby")
  let part := Fields.getD fields
  return {
    collections := part "collections", ids := part "ids", bbox := part "bbox"
    datetime := part "datetime", intersects := part "intersects"
    filter := (Fields.get? fields "filter_expr").getD (part "filter")
    aggregations := part "aggregations"
    precision := fun g => part (precisionName g)
    interval := part "datetime_frequency_interval" }

/-- A request to aggregate, by query parameters. -/
structure AggregateParameters where
  collectionId : Json := .null
  collections : Json := .arr []
  datetime : Json := .null
  intersects : Json := .null
  filterLanguage : Json := .null
  filter : Json := .null
  aggregations : Json := .null
  ids : Json := .null
  bbox : Json := .null
  precision : Aggregation.Grid → Json := fun _ => .null
  interval : Json := .null

def AggregateParameters.ofFields (fields : Fields) : AggregateParameters :=
  let part := Fields.getD fields
  { collectionId := part "collection_id", ids := part "ids", bbox := part "bbox"
    collections := (Fields.get? fields "collections").getD (.arr [])
    datetime := part "datetime", intersects := part "intersects"
    filter := part "filter_expr", filterLanguage := part "filter_lang"
    aggregations := part "aggregations"
    precision := fun g => part (precisionName g), interval := part "datetime_frequency_interval" }

/-- The request that parameters stand for. -/
def AggregateParameters.toRequest (library : Library) (p : AggregateParameters) :
    Outcome AggregateRequest := do
  let intersects ← SearchParameters.whenGiven p.intersects Filter.ofParameter
  let datetime ← SearchParameters.whenGiven p.datetime fun v => do
    return .str (← Time.normalRange library v)
  let filter ← SearchParameters.whenGiven p.filter fun v =>
      Filter.ofRequest library v p.filterLanguage
  return {
    collections := p.collections, ids := p.ids, datetime := datetime, bbox := p.bbox
    intersects := intersects, filter := filter, aggregations := p.aggregations
    precision := p.precision, interval := p.interval }

/-! ### Aggregating -/

/-- The clauses of a request but for its filter. -/
def plainClauses (library : Library) (request : AggregateRequest) : Outcome Search := do
  let search := Search.empty
  let search := if request.ids.truthy then search.withIds request.ids else search
  let search ← search.withInterval (.value request.datetime)
  let search ← if request.bbox.truthy then do search.withBox (← Browse.flatBox request.bbox)
      else .ok search
  if SearchApi.shapeGiven request.intersects then search.withShape library request.intersects
    else return search

def offeredNames (offered : List Json) : Outcome (List Json) :=
  offered.mapM fun entry => entry.item "name"

/-- Whether a name is among those that are offered; both must be fit to be keys if `keyed`. -/
def isOffered (keyed : Bool) (offered : List Json) (name : Json) : Outcome Bool := do
  let names ← offeredNames offered
  if keyed then
    names.forM Json.hashable
    name.hashable
  return names.any name.same

/-- The fault of the first name that is not offered, if there is one. -/
def checkNames (keyed : Bool) (offered : List Json) (place : String) : List Json → Outcome Unit
  | [] => .ok ()
  | name :: rest => do
    if ← isOffered keyed offered name then checkNames keyed offered place rest
    else .error (.http 400 ("Aggregation " ++ name.display ++ " not supported " ++ place))

/-- The aggregations that a collection offers together with those that all offer. -/
def withStandard (offered : Json) : Outcome (List Json) :=
  match offered with
  | .arr items => .ok (items ++ Aggregation.standard)
  | .str _ => .error (.wrongType "can only concatenate str (not \"list\") to str")
  | v =>
    .error (.wrongType ("unsupported operand type(s) for +: '" ++ v.kindName ++ "' and 'list'"))

/-- Checks the names against each collection in turn; what the last one offers. -/
def checkCollections (ctx : Context) (baseUrl : String) (names : Json) (last : List Json) :
    List Json → Program (List Json)
  | [] => .done last
  | collection :: rest => do
    let _ ← offerLinks baseUrl collection
    let offered ← withStandard (← offers ctx collection)
    checkNames true offered ("by collection " ++ collection.display) (← names.elements)
    checkCollections ctx baseUrl names offered rest

/-- The precisions of all grids, each within its range. -/
def fineness (request : AggregateRequest) : Outcome Searching.Fineness := do
  let centroidGeohash ← Aggregation.Grid.precision .centroidGeohash
      (request.precision .centroidGeohash)
  let centroidGeohex ← Aggregation.Grid.precision .centroidGeohex
      (request.precision .centroidGeohex)
  let centroidGeotile ← Aggregation.Grid.precision .centroidGeotile
      (request.precision .centroidGeotile)
  let geometryGeohash ← Aggregation.Grid.precision .geometryGeohash
      (request.precision .geometryGeohash)
  let geometryGeotile ← Aggregation.Grid.precision .geometryGeotile
      (request.precision .geometryGeotile)
  let interval ← Aggregation.interval request.interval
  return {
    precision := fun
      | .centroidGeohash => centroidGeohash
      | .centroidGeohex => centroidGeohex
      | .centroidGeotile => centroidGeotile
      | .geometryGeohash => geometryGeohash
      | .geometryGeotile => geometryGeotile
    interval := interval }

/-- Adds an offer to a list in which no two have the same members: the later one takes the place of
the earlier. -/
def addOffer (offers : List Fields) (offer : Fields) : List Fields :=
  match offers with
  | [] => [offer]
  | first :: rest =>
    if (Json.obj first).same (.obj offer) then offer :: rest else first :: addOffer rest offer

/-- The offers with different members. -/
def distinctOffers (offers : List Json) : Outcome (List Fields) :=
  offers.foldlM (fun acc offer => do
    let fields ← offer.entries
    fields.forM fun entry => entry.2.hashable
    return addOffer acc fields) []

/-- Whether a name is among those that are asked for. -/
def isAsked (names name : Json) : Outcome Bool :=
  match names, name with
  | .arr items, _ => .ok (items.any name.same)
  | .obj _, .arr _ | .obj _, .obj _ => do
    name.hashable
    return false
  | .str _, .str s | .obj _, .str s => names.contains s
  | .str _, v => .error (.wrongType
      ("'in <string>' requires string as left operand, not " ++ v.kindName))
  | .obj _, _ => .ok false
  | v, _ => .error (.wrongType ("argument of type '" ++ v.kindName ++ "' is not iterable"))

def answerOne (answers names : Json) (offer : Fields) : Outcome (Option Json) := do
  let name ← Json.item (.obj offer) "name"
  if ← isAsked names name then
    let text ← name.text "endswith"
    let dataType ← Json.item (.obj offer) "data_type"
    if text.endsWith "_frequency" then return some (← Aggregation.frequency answers name dataType)
    else return some (← Aggregation.metric answers name dataType)
  else return none

/-- The answers of all aggregations that are asked for. -/
def answersOf (reply names : Json) (offered : List Json) : Outcome (List Json) := do
  if reply.truthy then
    let answers ← reply.lookupD "aggregations" (.obj [])
    let distinct ← distinctOffers (offered ++ Aggregation.additional)
    return (← distinct.mapM (answerOne answers names)).filterMap id
  else return []

def answerLinks (baseUrl : String) (collection : Json) : Outcome (List Json) := do
  let root := Links.link "root" Links.json baseUrl
  if collection.truthy then
    let endpoint ← Url.join baseUrl ("collections/" ++ collection.display)
    return [root, Links.link "collection" Links.json endpoint,
      Links.link "self" Links.json (← Url.join endpoint "aggregate")]
  else return [root, Links.link "self" Links.json (← Url.join baseUrl "aggregate")]

/-- Checks what is asked for against the collections, and adds their clause. -/
def checked (ctx : Context) (request : AggregateRequest) (collection : Json) (baseUrl : String)
    (search : Search) : Program (Search × Json × List Json) :=
  if request.collections.truthy then do
    let all ← request.collections.elements
    let offered ← checkCollections ctx baseUrl request.aggregations [] all
    return (search.withCollections request.collections, all.getLastD collection, offered)
  else do
    let _ ← offerLinks baseUrl .null
    checkNames false Aggregation.standard "at catalog level" (← request.aggregations.elements)
    return (search, collection, Aggregation.standard)

/-- Adds the clause of the filter, if there is one. -/
def filtered (ctx : Context) (request : AggregateRequest) (search : Search) : Program Search :=
  if request.filter.truthy then
    SearchApi.orRefuse (Searching.withFilter ctx search request.filter) "Error with cql2 filter: "
  else pure search

/-- Sends a search with aggregations, and answers with what comes of it. -/
def searchedFor (ctx : Context) (request : AggregateRequest) (searched : Json)
    (r : Request) (collection : Json) (offered : List Json) (search : Search) : Program Json := do
  let f ← fineness request
  let reply ← (Searching.aggregate ctx searched request.aggregations search f (.bool true)).recover
      fun fault =>
    match fault with
    | .outOfRange _ => .fail (.unset "db_response")
    | other => .fail other
  let answers ← answersOf reply request.aggregations offered
  let links ← answerLinks r.baseUrl collection
  return .obj [("type", .str "AggregationCollection"), ("aggregations", .arr answers),
    ("links", .arr links)]

/-- The steps of an aggregation in a row. -/
def steps (ctx : Context) (request : AggregateRequest) (collection searched : Json) (r : Request) :
    Program Json := do
  let search ← plainClauses ctx.library request
  let (search, collection, offered) ← checked ctx request collection r.baseUrl search
  let search ← filtered ctx request search
  searchedFor ctx request searched r collection offered search

/-- Aggregates: `aggregate`. `collection` is the collection that the path names, and `searched` the
collections whose indices are searched. -/
def aggregate (ctx : Context) (request : AggregateRequest) (collection searched : Json)
    (r : Request) : Program Json := do
  let request ← if collection.truthy then
      if request.collections.truthy then
        .fail (.http 400 ("Cannot query multiple collections when executing " ++
          "'/collections/<collection_id>/aggregate'. Use '/aggregate' and the collections " ++
          "field instead"))
      else pure { request with collections := .arr [collection] }
    else pure request
  if request.aggregations.isNull || request.aggregations.same (.arr []) then
    .fail (.http 400
      ("No 'aggregations' found. Use '/aggregations' to return available aggregations"))
  else steps ctx request collection searched r

/-- The segment of a path after its second slash. -/
def pathCollection (path : String) : Outcome Json :=
  match path.toList.splitOn '/' with
  | _ :: _ :: segment :: _ => .ok (.str (String.ofList segment))
  | _ => .error (.outOfRange "list index out of range")

/-- Aggregates by query parameters. -/
def get (ctx : Context) (p : AggregateParameters) (r : Request) : Program Json := do
  let searched := if p.collectionId.truthy then Json.arr [.str p.collectionId.display]
      else p.collections
  let request ← p.toRequest ctx.library
  aggregate ctx request p.collectionId searched r

/-- Aggregates by a request. A path that speaks of collections names one. -/
def post (ctx : Context) (request : AggregateRequest) (collection searched : Json) (r : Request) :
    Program Json := do
  let path := ctx.library.urlPath r.url
  let collection ← if Json.occursIn "collections".toList path.toList then pathCollection path
    else pure collection
  let filter ←
    if request.filter.truthy then
      Filter.ofRequest ctx.library request.filter (.str "cql2-json")
    else pure request.filter
  aggregate ctx { request with filter := filter } collection searched r

end StacCatalog.AggregateApi
