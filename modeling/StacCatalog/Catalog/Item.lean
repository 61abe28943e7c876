import StacCatalog.Json.Access
import StacCatalog.Library
import StacCatalog.Time.Iso

/-!
# Items on their way into the store and out of it
-/

namespace StacCatalog

namespace Item

/-- Sets the time of the last change in the properties, and the time of creation unless it is there.
-/
def stampProperties (time : String) (properties : Json) : Outcome Json := do
  let properties ← if ← properties.contains "created" then .ok properties
    else properties.setItem "created" (.str time)
  properties.setItem "updated" (.str time)

/-- The item with the time of its last change set. -/
def restamped (now : Time.Moment) (item : Json) : Outcome Json := do
  let now ← now.toUtc
  let properties ← (← item.item "properties").setItem "updated" (.str (now.secondsText ++ "Z"))
  item.setItem "properties" properties

/-- The item as it is stored: `ItemSerializer.stac_to_db`. -/
def toStored (library : Library) (now : Time.Moment) (item : Json) : Outcome Json := do
  let links ← library.resolveLinks (← item.lookupD "links" (.arr []))
  let item ← item.setItem "links" (.arr links)
  let time ← Time.nowText now
  let properties ← stampProperties time (← item.item "properties")
  item.setItem "properties" properties

/-- The item of a stored document, as it is answered: `ItemSerializer.db_to_stac`. -/
def ofStored (library : Library) (baseUrl : String) (document : Json) : Outcome Json := do
  let id ← document.item "id"
  let collection ← document.item "collection"
  let stored ← document.lookupD "links" (.arr [])
  let extra ← if stored.truthy then library.resolveLinks stored else .ok []
  let part (name : String) (default : Json) : Outcome Json := document.lookupD name default
  return .obj [
    ("type", .str "Feature"),
    ("stac_version", ← part "stac_version" (.str "")),
    ("stac_extensions", ← part "stac_extensions" (.arr [])),
    ("id", id),
    ("collection", ← part "collection" (.str "")),
    ("geometry", ← part "geometry" (.obj [])),
    ("bbox", ← part "bbox" (.arr [])),
    ("properties", ← part "properties" (.obj [])),
    ("links", .arr (library.itemLinks baseUrl id collection ++ extra)),
    ("assets", ← part "assets" (.obj []))]

end Item

end StacCatalog
