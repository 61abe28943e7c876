import StacCatalog.Database.Collections

/-!
# Changing the catalogue: creating, replacing, patching and deleting items and collections
-/

namespace StacCatalog.Transactions

open Program

/-! ### Items -/

/-- Makes all items of a collection of features ready to be stored. -/
def prepareAll (ctx : Context) (existOk : Bool) : List Json → Program (List Json)
  | [] => .done []
  | item :: rest => do
    let prepared ← Items.prepareForBatch ctx item existOk
    return prepared :: (← prepareAll ctx existOk rest)

/-- What is said of a batch: how many items were stored, and how many were not. -/
def report (verb : String) (attempted : Nat) (stored : Json) : Outcome Json := do
  let missed ← Json.countMinus attempted stored
  return .str ("Successfully " ++ verb ++ " " ++ stored.display ++ " Items. " ++ missed.display ++
    " errors occurred.")

/-- Creates an item, or all items of a collection of features: `create_item`. -/
def createItem (ctx : Context) (collection item : Json) (baseUrl : String) (refresh : Option Json) :
    Program Json := do
  let type ← item.item "type"
  if type.same (.str "FeatureCollection") then
    let features ← (← item.item "features").elements
    let prepared ← prepareAll ctx false features
    let (stored, _) ← Items.bulk ctx .concurrent collection (.arr prepared) refresh
    report "added" prepared.length stored
  else
    let stored ← Items.create ctx item false refresh
    Item.ofStored ctx.library baseUrl stored

/-- Replaces an item by the given one, which is stored where its own content places it:
`update_item`. -/
def updateItem (ctx : Context) (item : Json) (baseUrl : String) (refresh : Option Json) :
    Program Json := do
  let stored ← Items.create ctx (← Item.restamped ctx.now item) true refresh
  Item.ofStored ctx.library baseUrl stored

/-- The body of a patch. -/
inductive PatchBody where
  | operations (ops : List Patch.Operation)
  | merge (fields : Fields)
  | other

/-- The operations of a patch, if its form is the one its media type says. -/
def operationsOf (body : PatchBody) (mediaType : Json) : Option (List Patch.Operation) :=
  match body with
  | .operations ops => if mediaType == .str "application/json-patch+json" then some ops else none
  | .merge fields =>
    if mediaType == .str "application/merge-patch+json" || mediaType == .str "application/json" then
      some (Patch.merge fields)
    else none
  | .other => none

/-- Patches an item: `patch_item`. -/
def patchItem (ctx : Context) (collection item : Json) (body : PatchBody) (r : Request) :
    Program Json := do
  match operationsOf body (Fields.getD r.headers "content-type") with
  | some ops =>
    let patched ← Items.patch ctx collection item ops (.bool true)
    if patched.truthy then Item.ofStored ctx.library r.baseUrl patched else .fail .unsupported
  | none => .fail .unsupported

/-- Creates a collection: `create_collection`. -/
def createCollection (ctx : Context) (collection : Json) (r : Request) (refresh : Option Json) :
    Program Json := do
  let stored ← Collection.toStored ctx.library collection
  Collections.create ctx stored refresh
  Collection.ofStored ctx.library r [] stored

/-- Replaces a collection: `update_collection`. -/
def updateCollection (ctx : Context) (id collection : Json) (r : Request) (refresh : Option Json) :
    Program Json := do
  let stored ← Collection.toStored ctx.library collection
  Collections.update ctx id stored refresh
  Collection.ofStored ctx.library r [] stored

/-- Patches a collection: `patch_collection`. -/
def patchCollection (ctx : Context) (id : Json) (body : PatchBody) (r : Request) :
    Program Json := do
  match operationsOf body (Fields.getD r.headers "content-type") with
  | some ops =>
    let patched ← Collections.patch ctx id ops (.bool true)
    if patched.truthy then Collection.ofStored ctx.library r [] patched else .fail .unsupported
  | none => .fail .unsupported

/-- Whether the items of a batch may exist already. -/
inductive BatchMethod where
  | insert
  | upsert
  deriving DecidableEq, Repr

/-- Checks and makes ready the items of a batch, one after the other. `valid` says whether an item
is one. -/
def prepareValid (ctx : Context) (valid : Json → Bool) (existOk : Bool) :
    List Json → Program (List Json)
  | [] => .done []
  | item :: rest =>
    match item with
    | .obj fields => do
      let _ ← ctx.library.document fields
      if !valid item then .fail (.badModel "")
      else
        let prepared ← Items.prepareForBatch ctx item existOk
        return prepared :: (← prepareValid ctx valid existOk rest)
    | _ => .fail (.wrongType "argument after ** must be a mapping")

/-- Stores a batch of items, in the collection of the first: `bulk_item_insert`. -/
def insertBatch (ctx : Context) (valid : Json → Bool) (items : List Json) (method : BatchMethod)
    (refresh : Option Json) : Program Json := do
  let prepared ← prepareValid ctx valid (method = .upsert) items
  let collection ← (← Json.nthInt prepared 0).item "collection"
  let (stored, _) ← Items.bulk ctx .blocking collection (.arr prepared) refresh
  report "added/updated" prepared.length stored

end StacCatalog.Transactions
