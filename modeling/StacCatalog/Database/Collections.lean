import StacCatalog.Catalog.Collection
import StacCatalog.Database.Indices
import StacCatalog.Database.Items

/-!
# Collections in the database: reading, listing, creating, replacing, patching and deleting
-/

namespace StacCatalog.Collections

open Program

/-! ### Reading -/

/-- The stored collection of an id: `find_collection`. -/
def find (ctx : Context) (id : Json) : Program Json := do
  let found ← (perform (.get ctx.naming.collections id)).orMissing (.collection id)
  found.item "_source"

/-- The token that goes on after a hit: its sort key. -/
def keyToken (backend : Backend) (hit : Json) : Outcome Json := do
  match backend with
  | .elasticsearch => (← hit.item "sort").nth 0
  | .opensearch =>
    let key ← hit.lookup "sort"
    if key.truthy then key.nth 0 else return .null

/-- The token of the page after a page of hits: that of the last one. -/
def nextToken (backend : Backend) (hits : Json) : Outcome Json := do
  keyToken backend (← hits.last)

/-- The collection of a hit. -/
def ofHit (library : Library) (r : Request) (extensions : List String) (hit : Json) :
    Outcome Json := do
  Collection.ofStored library r extensions (← hit.item "_source")

/-- A page of collections, with the token of the next one read off the hits in a given way. -/
def pageWith (next : Json → Outcome Json) (ctx : Context) (token limit : Json) (r : Request) :
    Program (List Json × Json) := do
  let after := if token.truthy then some token else none
  let answer ← perform (.listCollections ctx.naming.collections limit after)
  let hits ← (← answer.item "hits").item "hits"
  let collections ← ((← hits.elements).mapM (ofHit ctx.library r ctx.extensions) : Outcome _)
  let token ← if (Json.int collections.length).same limit then next hits else pure .null
  return (collections, token)

/-- A page of collections, and the token of the next page, if this one is full:
`get_all_collections`. -/
def page (ctx : Context) (token limit : Json) (r : Request) : Program (List Json × Json) :=
  pageWith (nextToken ctx.backend) ctx token limit r

/-- Stores a new collection and creates its index: `create_collection`. -/
def create (ctx : Context) (collection : Json) (refresh : Option Json) : Program Unit := do
  let id ← collection.item "id"
  let refresh ← ctx.refresh refresh
  let found ← perform (.exists ctx.naming.collections id)
  if found.truthy then .fail (.conflict (.collection id))
  tell (.index ctx.naming.collections id collection refresh)
  Indices.createItems ctx id

/-- Deletes a collection and its index: `delete_collection`. -/
def delete (ctx : Context) (id : Json) (refresh : Option Json) : Program Unit := do
  let refresh ← match ctx.backend with
    | .elasticsearch => do
      let refresh ← ctx.refresh refresh
      let _ ← find ctx id
      pure refresh
    | .opensearch => do
      let _ ← find ctx id
      ctx.refresh refresh
  tell (.delete ctx.naming.collections id refresh)
  Indices.deleteItems ctx id

/-- Replaces a collection: `update_collection`. Under a new id it is created anew, and its items
move. -/
def update (ctx : Context) (id collection : Json) (refresh : Option Json) : Program Unit := do
  let resolved ← ctx.refresh refresh
  let _ ← find ctx id
  let new ← collection.item "id"
  if id.same new then tell (.index ctx.naming.collections id collection resolved)
  else
    create ctx collection (some resolved.toJson)
    tell (.reindex ⟨id, new, none, resolved.toJson⟩)
    delete ctx id (match ctx.backend with
      | .elasticsearch => none
      | .opensearch => refresh)

/-- Whether an operation gives a collection a new id. -/
def renames (id : Json) (op : Patch.Operation) : Bool :=
  Items.sets op && op.path == "collection" && !id.same op.value

/-- Patches a collection by operations: runs a script on it, then gives it its new id:
`json_patch_collection`. -/
def patch (ctx : Context) (id : Json) (operations : List Patch.Operation) (refresh : Json) :
    Program Json := do
  let new := ((operations.filter (renames id)).map (·.value)).getLastD .null
  let script ← Patch.script (operations.filter fun op => !renames id op)
  (tell (.update ctx.naming.collections id script)).orRefused
  let collection ← find ctx id
  if new.truthy then
    let collection ← collection.setItem "id" new
    let collection ← collection.setItem "links" (.arr [])
    update ctx id collection (some refresh)
    return collection
  else return collection

end StacCatalog.Collections
