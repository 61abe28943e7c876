import StacCatalog.Database.Context

/-!
# Creating and deleting indices
-/

namespace StacCatalog.Indices

open Program

/-- Says how indices are to be created: `create_index_templates`. -/
def putTemplates : Program Unit := do
  tell (.putTemplate .collections)
  tell (.putTemplate .items)
  tell .close

/-- Creates an index with an alias, unless it exists. One backend is told to overlook that it
exists, the other is asked first. -/
def create (ctx : Context) (index aliasName : Outcome String) (kind : IndexKind) :
    Program Unit := do
  match ctx.backend with
  | .elasticsearch =>
    tell .tolerate
    let index ← index
    tell (.createIndex index (← aliasName) kind)
  | .opensearch =>
    let index ← index
    let found ← perform (.indexExists index)
    if !found.truthy then tell (.createIndex index (← aliasName) kind)
  tell .close

/-- Creates the index of the collections: `create_collection_index`. -/
def createCollections (ctx : Context) : Program Unit :=
  create ctx (.ok (ctx.naming.collections ++ "-000001")) (.ok ctx.naming.collections) .collections

/-- Creates the index of a collection's items: `create_item_index`. -/
def createItems (ctx : Context) (collection : Json) : Program Unit :=
  let index := (ctx.naming.indexFor collection).map (· ++ "-000001")
  create ctx index (ctx.aliasFor collection) .items

/-- The only element of a list. -/
def onlyOne (value : Json) : Outcome Json := do
  match ← value.elements with
  | [v] => return v
  | _ => .error (.invalid "wrong number of values to unpack (expected 1)")

/-- Deletes the index of the items of a collection, with its alias: every index that has the alias:
`delete_item_index`. -/
def deleteItems (ctx : Context) (collection : Json) : Program Unit := do
  let name ← ctx.aliasFor collection
  let resolved ← perform (.resolveAlias name)
  let found ← if ← resolved.contains "aliases" then resolved.item "aliases" else pure .null
  if found.truthy then
    let entry ← onlyOne found
    let indices ← entry.item "indices"
    tell (.deleteAlias indices (← entry.item "name"))
    tell (.deleteIndex indices)
  else tell (.deleteIndex (.str name))
  tell .close

end StacCatalog.Indices
