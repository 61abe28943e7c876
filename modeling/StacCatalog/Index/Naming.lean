import StacCatalog.Json.Access
import StacCatalog.Settings.Environment
import StacCatalog.Text.Utf8

/-!
# Where documents are stored: names of indices and of documents in them
-/

namespace StacCatalog

/-- How indices are named. -/
structure Naming where
  /-- The index of the collections. -/
  collections : String
  /-- What the names of all item indices begin with. -/
  items : String
  deriving DecidableEq, Repr, Inhabited

namespace Naming

def standard : Naming := ⟨"collections", "items_"⟩

/-- The names that the environment configures. -/
def ofEnvironment (env : Environment) : Naming :=
  ⟨env.getD "STAC_COLLECTIONS_INDEX" standard.collections,
    env.getD "STAC_ITEMS_INDEX_PREFIX" standard.items⟩

/-- The characters that the name of an index must not have. -/
def unsupported : List Char :=
  ['\\', '/', '*', '?', '"', '<', '>', '|', ' ', ',', '#', ':']

/-- A text without the characters that the name of an index must not have. -/
def clean (id : String) : String :=
  String.ofList (id.toList.filter fun c => !unsupported.contains c)

/-- The alias under which the items of a collection are addressed. -/
def aliasOf (n : Naming) (id : String) : String :=
  n.items ++ clean id

/-- The index that is created for the items of a collection. -/
def indexOf (n : Naming) (id : String) : String :=
  n.items ++ Text.lower (clean id) ++ "_" ++ Text.utf8Hex id

/-- All item indices, and nothing else. -/
def allItems (n : Naming) : String :=
  n.items ++ "*,-*kibana*,-" ++ n.collections ++ "*"

/-- The id of a collection that is to be turned into a name; only a text can be. -/
def collectionText (id : Json) : Outcome String := do
  id.hashable
  id.text "translate"

/-- The alias of a collection whose id may not be a text: `index_alias_by_collection_id`. -/
def aliasFor (n : Naming) (id : Json) : Outcome String := do
  return n.aliasOf (← collectionText id)

/-- The index of a collection whose id may not be a text: `index_by_collection_id`. -/
def indexFor (n : Naming) (id : Json) : Outcome String := do
  return n.indexOf (← collectionText id)

/-- The indices that hold the items of the given collections; of all, if none are given: `indices`.
-/
def indices (n : Naming) (collections : Json) : Outcome String := do
  if collections.truthy then
    let aliases ← (← collections.elements).mapM n.aliasFor
    return ",".intercalate aliases
  else return n.allItems

/-- The name of an item's document: `mk_item_id`. -/
def documentId (item collection : Json) : String :=
  item.display ++ "|" ++ collection.display

end Naming

end StacCatalog
