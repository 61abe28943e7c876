import StacCatalog.Aggregation.Basic
import StacCatalog.Database.Context
import StacCatalog.Filter.Basic
import StacCatalog.Json.Arithmetic
import StacCatalog.Search.Token

/-!
# Searching items: pages, filters and aggregations
-/

namespace StacCatalog.Searching

open Program

/-- The number of hits that a search reaches at most. -/
def window : Int := 10000

/-- The names by which a filter may speak of the fields of items, with the fields they stand for:
`get_queryables_mapping`. -/
def queryables (ctx : Context) (collection : Json) : Program Fields := do
  let mappings ← perform (.getMapping (ctx.naming.items ++ collection.display) false)
  return (← Mapping.queryables mappings).1

/-- The query that a filter stands for, by the names that the mappings give to fields. -/
def translation (ctx : Context) (filter : Json) : Program (Option Query) := do
  if filter.isNull then return none
  else
    let names ← queryables ctx (.str "*")
    return some (← Filter.translate names filter)

/-- Adds a filter to a search: `apply_cql2_filter`. -/
def withFilter (ctx : Context) (search : Search) (filter : Json) : Program Search := do
  return (← translation ctx filter).elim search (search.withFilter ctx.backend)

/-! ### Pages -/

/-- A page of items. The items are still in the hits that hold them. -/
structure Found where
  hits : List Json
  /-- How many items match; `null` if it is not known. -/
  matched : Json
  /-- The token of the next page; `null` if there is none. -/
  token : Json

/-- The token that goes on after a hit. -/
def keyToken (hit : Json) : Outcome Json := do
  let key ← hit.lookup "sort"
  if key.truthy then return .str (← Token.ofKey key) else return .null

/-- The token of the page after some hits. -/
def nextToken (hits limit : Json) : Outcome Json := do
  let more ← (Json.int (← hits.size)).greater limit
  let within ← if more then limit.less (.int window) else .ok false
  match within, hits.sequence?, limit.wholeNumber? with
  | true, some items, some n =>
    if items.isEmpty then return .null else keyToken (← Json.nthInt items (n - 1))
  | _, _, _ => return .null

/-- How many items match according to the answer of the search itself. -/
def total (answer : Json) : Outcome Json := do
  let total ← (← answer.item "hits").item "total"
  if (← total.item "relation").same (.str "eq") then total.item "value" else return .null

/-- How many items match: what was counted, if the count is there and can be read. -/
def matched (total : Json) : Reply → Json
  | .value count =>
    match count.lookup "count" with
    | .ok n => n
    | .error _ => total
  | .fault _ | .pending => total

/-- The sort key after which a page begins; `null` for the first page. -/
def startOf (token : Json) : Outcome Json :=
  if token.truthy then Token.toKey token else .ok .null

/-- A page of items that begins after a sort key, with the token of the next one read off the hits
in a given way. -/
def pageFrom (next : Json → Json → Outcome Json) (ctx : Context) (search : Search)
    (limit sort collections ignoreUnavailable after : Json) : Program Found := do
  let indices ← ctx.naming.indices collections
  let size ← (← limit.succ).atMost window
  let sort := if sort.truthy then sort else .obj SortOrder.standard
  let reply ← ask (.findItems ⟨indices, ignoreUnavailable, search, sort, after, size⟩)
  let count ← ask (.count indices ignoreUnavailable search)
  let answer ← (ofReply reply).orMissing (.items collections)
  let hits ← (← answer.item "hits").item "hits"
  let items ← hits.upTo limit
  let token ← next hits limit
  return ⟨items, matched (← total answer) count, token⟩

/-- A page of the items that a search finds: `execute_search`. -/
def page (ctx : Context) (search : Search) (limit token sort collections ignoreUnavailable : Json) :
    Program Found := do
  pageFrom nextToken ctx search limit sort collections ignoreUnavailable (← startOf token)

/-- The items of a page, each taken out of its hit. -/
def Found.items (f : Found) : Outcome (List Json) :=
  f.hits.mapM fun hit => hit.item "_source"

/-- How fine the grids and the intervals are. -/
structure Fineness where
  precision : Aggregation.Grid → Json
  interval : Json

/-- What is asked of the database for an aggregation. -/
def definition (f : Fineness) (name : String) (standard : Json) : Json :=
  let grid := Aggregation.Grid.all.find? fun g => g.name = name
  match standard with
  | .obj [(kind, .obj settings)] =>
    let settings := match grid with
      | some g => Fields.insert settings "precision" (f.precision g)
      | none => settings
    let settings := if kind = "date_histogram" then Fields.insert settings
        "calendar_interval" f.interval
      else settings
    .obj [(kind, .obj settings)]
  | other => other

/-- The definitions of those aggregations that are asked for; names without a definition are passed
over. -/
def definitions (f : Fineness) (names : Json) : Outcome Fields := do
  let wanted ← Aggregation.definitions.filterM fun entry => names.contains entry.1
  return wanted.map fun (name, standard) => (name, definition f name standard)

/-- Asks the database for aggregations: `aggregate`. -/
def aggregate (ctx : Context) (collections names : Json) (search : Search) (f : Fineness)
    (ignoreUnavailable : Json) : Program Json := do
  let wanted ← definitions f names
  let indices ← ctx.naming.indices collections
  (perform (.aggregate ⟨indices, ignoreUnavailable, search, wanted⟩)).orMissing (.items collections)

end StacCatalog.Searching
