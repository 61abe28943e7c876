import StacCatalog.Catalog.Item
import StacCatalog.Links

/-!
# Collections on their way into the store and out of it
-/

namespace StacCatalog

namespace Collection

/-- The collection as it is stored: `CollectionSerializer.stac_to_db`. -/
def toStored (library : Library) (collection : Json) : Outcome Json := do
  let links ← library.resolveLinks (← collection.lookupD "links" (.arr []))
  collection.setItem "links" (.arr links)

/-- What every collection has, with what it is if it is missing. -/
def standard : Fields :=
  [("type", .str "Collection"), ("stac_extensions", .arr []), ("stac_version", .str ""),
   ("title", .str ""), ("description", .str ""), ("keywords", .arr []), ("license", .str ""),
   ("providers", .arr []), ("summaries", .obj []),
   ("extent", .obj [("spatial", .single "bbox" (.arr [])),
     ("temporal", .single "interval" (.arr []))]),
   ("assets", .obj [])]

/-- A collection with what every collection has. -/
def complete (fields : Fields) : Fields :=
  standard.foldl (fun acc entry => if Fields.has acc entry.1 then acc
    else Fields.insert acc entry.1 entry.2) fields

/-- The collection of a stored document, as it is answered: `CollectionSerializer.db_to_stac`. -/
def ofStored (library : Library) (r : Request) (extensions : List String) (document : Json) :
    Outcome Json :=
  match document with
  | .obj fields => do
    let links ← Links.collection r (Fields.getD fields "id").display extensions
    let stored := Fields.getD fields "links"
    let extra ← if stored.truthy then library.resolveLinks stored else .ok []
    return .obj (← library.document (Fields.insert (complete fields) "links"
      (.arr (links ++ extra))))
  | v => .error (.noMember v.kindName "get")

end Collection

end StacCatalog
