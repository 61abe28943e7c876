import StacCatalog.Json.Basic

/-!
# A request to the catalogue, as far as it shows in answers
-/

namespace StacCatalog

/-- A request as it is received. -/
structure Request where
  /-- Where the catalogue is found. -/
  baseUrl : String
  /-- What was asked for. -/
  url : String
  method : String
  queryParams : Fields
  headers : Fields
  body : Json
  /-- Where the service description is found, if it is served. -/
  openapiUrl : Option String
  /-- Where the documentation is found, if it is served. -/
  docsUrl : Option String
  deriving DecidableEq, Repr, Inhabited

end StacCatalog
