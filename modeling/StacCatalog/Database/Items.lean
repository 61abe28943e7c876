import StacCatalog.Catalog.Item
import StacCatalog.Database.Context
import StacCatalog.Json.Arithmetic

/-!
# Items in the database: reading, creating, patching and deleting one, and storing many
-/

namespace StacCatalog.Items

open Program

/-- The fault of a collection that is not stored: `check_collection_exists`. -/
def checkCollection (ctx : Context) (collection : Json) : Program Unit := do
  let found ← perform (.exists ctx.naming.collections collection)
  if !found.truthy then .fail (.notFound (.parent collection))

/-- The stored item of an id: `get_one_item`. -/
def find (ctx : Context) (collection item : Json) : Program Json := do
  let index ← ctx.aliasFor collection
  let found ← (perform (.get index (Context.documentId item collection))).orMissing
      (.item item collection)
  found.item "_source"

/-- Deletes an item: `delete_item`. -/
def delete (ctx : Context) (collection item : Json) (refresh : Option Json) : Program Unit := do
  let refresh ← ctx.refresh refresh
  let index ← ctx.aliasFor collection
  (tell (.delete index (Context.documentId item collection) refresh)).orMissing
    (.deleted item collection)

/-- Whether an item is stored where its content places it. -/
def taken (ctx : Context) (item : Json) : Program Bool := do
  let collection ← item.item "collection"
  let index ← ctx.aliasFor collection
  let id ← item.item "id"
  return (← perform (.exists index (Context.documentId id collection))).truthy

/-- Makes an item ready to be stored: `async_prep_create_item`. -/
def prepare (ctx : Context) (item : Json) (existOk : Bool) : Program Json := do
  checkCollection ctx (← item.item "collection")
  if !existOk then
    if ← taken ctx item then
      .fail (.conflict (.item (← item.item "id") (← item.item "collection")))
  Item.toStored ctx.library ctx.now item

/-- Makes an item of a batch ready to be stored: `bulk_async_prep_create_item`. An item that is
stored already only stops a strict batch. -/
def prepareForBatch (ctx : Context) (item : Json) (existOk : Bool) : Program Json := do
  let id ← item.item "id"
  let collection ← item.item "collection"
  checkCollection ctx collection
  if !existOk then
    if ← taken ctx item then
      if ctx.raiseOnBulkError then .fail (.conflict (.batchItem id collection))
  Item.toStored ctx.library ctx.now item

/-- Creates an item, or replaces it if it may exist; the item as it is stored: `create_item`. -/
def create (ctx : Context) (item : Json) (existOk : Bool) (refresh : Option Json) :
    Program Json := do
  let id ← item.item "id"
  let collection ← item.item "collection"
  let refresh ← ctx.refresh refresh
  let stored ← prepare ctx item existOk
  tell (.index (← ctx.aliasFor collection) (Context.documentId id collection) stored refresh)
  return stored

/-! ### Patching -/

/-- What a patch does to the place of an item, apart from what it does to its content. -/
structure Relocation where
  collection : Json := .null
  item : Json := .null
  content : List Patch.Operation := []

/-- Whether an operation sets a value. -/
def sets (op : Patch.Operation) : Bool :=
  match op with
  | .add .. | .replace .. => true
  | _ => false

/-- Tells the operations that move an item from those that change its content. A new collection must
be stored. -/
def relocation (ctx : Context) (collection item : Json) (r : Relocation) :
    List Patch.Operation → Program Relocation
  | [] => .done r
  | op :: rest =>
    if sets op && (op.path == "collection" || op.path == "id") then do
      let r ← if op.path == "collection" && !collection.same op.value then do
          checkCollection ctx op.value
          pure { r with collection := op.value }
        else pure r
      let r := if op.path == "id" && !item.same op.value then { r with item := op.value } else r
      relocation ctx collection item r rest
    else relocation ctx collection item { r with content := r.content ++ [op] } rest

/-- Moves an item to another collection; the item with its new collection. -/
def moveTo (ctx : Context) (collection item target document : Json) (refresh : Json) :
    Program Json := do
  tell (.reindex ⟨collection, target, some item, .bool true⟩)
  delete ctx collection item (some refresh)
  document.setItem "collection" target

/-- Gives an item a new id: creates it anew and deletes the old one; the item with its new id. -/
def rename (ctx : Context) (collection item new document : Json) (refresh : Json) :
    Program Json := do
  let document ← document.setItem "id" new
  let prepared ← prepare ctx document false
  let stored ← create ctx prepared false (some (.bool true))
  delete ctx collection item (some refresh)
  return stored

/-- What is left of a patch when its script has been run and the document has been read. -/
def settle (ctx : Context) (collection item : Json) (r : Relocation) (document refresh : Json) :
    Program Json := do
  let document ←
    if r.collection.truthy then moveTo ctx collection item r.collection document refresh
    else pure document
  let collection := if r.collection.truthy then r.collection else collection
  if r.item.truthy then rename ctx collection item r.item document refresh else return document

/-- Patches an item by operations: runs a script on its content, then moves it: `json_patch_item`.
-/
def patch (ctx : Context) (collection item : Json) (operations : List Patch.Operation)
    (refresh : Json) : Program Json := do
  let r ← relocation ctx collection item {} operations
  let script ← Patch.script r.content
  let index ← ctx.aliasFor collection
  (tell (.update index (Context.documentId item collection) script)).orRefused
  settle ctx collection item r (← find ctx collection item) refresh

/-- An item of a batch, with its place. -/
def action (aliasName : String) (item : Json) : Outcome BulkAction := do
  let id ← item.item "id"
  let collection ← item.item "collection"
  return ⟨aliasName, Naming.documentId id collection, item⟩

/-- The items of a batch, with their places: `mk_actions`. -/
def actions (ctx : Context) (collection items : Json) : Outcome (List BulkAction) := do
  let aliasName ← ctx.aliasFor collection
  (← items.elements).mapM (action aliasName)

/-- Stores a batch of items in the index of a collection; how many were stored, and the errors:
`bulk_async`. -/
def bulk (ctx : Context) (mode : BulkMode) (collection items : Json) (refresh : Option Json) :
    Program (Json × Json) := do
  let refresh ← ctx.refresh refresh
  if !items.truthy then return (.int 0, .arr [])
  else
    let reply ← perform (.bulk mode (← actions ctx collection items) refresh ctx.raiseOnBulkError)
    let (stored, errors) ← reply.pair
    if ctx.backend = .elasticsearch ∨ mode = .concurrent then
      let _ ← errors.size
    return (stored, errors)

/-- The mapping of a collection's index: `get_items_mapping`. -/
def mapping (ctx : Context) (collection : Json) : Program Json := do
  let index ← ctx.aliasFor collection
  (perform (.getMapping index true)).orMissing (.mapping index)

/-- The different values of one field, unless they are too many. -/
def valuesOf (limit : Json) (aggregation : Json) : Outcome (Option Json) := do
  let buckets ← aggregation.item "buckets"
  if ← (Json.int (← buckets.size)).greater limit then return none
  else return some (.arr (← (← buckets.elements).mapM fun b => b.item "key"))

/-- Keeps the fields whose values are not too many. -/
def collectValues (limit : Json) : List (String × Json) → Outcome Fields
  | [] => .ok []
  | (field, aggregation) :: rest => do
    let values ← valuesOf limit aggregation
    let others ← collectValues limit rest
    return (values.map fun v => (field, v)).toList ++ others

/-- The values of fields that take few values: `get_items_unique_values`. -/
def uniqueValues (ctx : Context) (collection fields limit : Json) : Program Fields := do
  let size ← limit.succ
  let index ← ctx.aliasFor collection
  let names ← fields.elements
  names.forM fun (name : Json) => (name.hashable : Outcome Unit)
  let answer ← perform (.uniqueValues index names size)
  collectValues limit (← (← answer.item "aggregations").entries)

end StacCatalog.Items
