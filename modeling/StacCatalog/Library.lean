import StacCatalog.Time.Moment

/-!
# What the catalogue takes from its libraries
-/

namespace StacCatalog

/-- What is taken from other libraries. -/
structure Library where
  /-- The moment that a text of RFC 3339 denotes: `rfc3339_str_to_datetime`. -/
  readMoment : String → Outcome Time.Moment
  /-- The JSON text of a filter in the text language: `to_cql2` after `parse_cql2_text`. -/
  filterText : Json → Outcome String
  /-- The links of a document for the address of the catalogue: `resolve_links`. -/
  resolveLinks : Json → Outcome (List Json)
  /-- The links that an item of some id and collection has by its place under an address:
  `ItemLinks.create_links`. -/
  itemLinks : String → Json → Json → List Json
  /-- The name that no member of a document can have, if there is one. -/
  reserved : Option String
  /-- The path of an address: `request.url.path`. -/
  urlPath : String → String
  /-- The type or the coordinates of a geometry: `intersects.type`, `intersects.coordinates`. A
  geometry need not have both. -/
  geometryPart : Fields → String → Outcome Json

/-- A library that reads nothing. -/
instance : Inhabited Library where
  default :=
    let unread {α : Type} : Outcome α := .error (.unset "library")
    ⟨fun _ => unread, fun _ => unread, fun _ => unread, fun _ _ _ => [], none, id,
      fun _ _ => unread⟩

namespace Library

/-- Whether a document can be built from some members. -/
def builds (library : Library) (fields : Fields) : Bool :=
  !library.reserved.any (Fields.has fields)

/-- The document that is built from some members: `Item(**…)`, `Collection(**…)`. -/
def document (library : Library) (fields : Fields) : Outcome Fields :=
  if library.builds fields then .ok fields
  else .error (.wrongType ("got multiple values for argument '" ++ library.reserved.getD "" ++ "'"))

end Library

end StacCatalog
