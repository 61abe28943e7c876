import StacCatalog.Database.Indices
import StacCatalog.Routes.Dependency
import StacCatalog.Routes.RateLimit
import StacCatalog.Settings.Connection
import StacCatalog.Version

/-!
# The service as a whole
-/

namespace StacCatalog

/-- The service as it is set up: `app`. -/
structure App where
  backend : Backend
  title : String
  description : String
  version : String
  /-- What the service offers besides browsing, in the order in which it is installed. -/
  extensions : List String
  landingPageId : String
  routes : List Routes.Protected
  rootPath : String
  rateLimit : Option String

/-- How a server is started. -/
structure Launch where
  target : String
  host : String
  port : Nat
  logLevel : String
  reload : Bool
  deriving DecidableEq, Repr

namespace App

/-- What a search can do beyond the standard. -/
def searchExtensions : List String :=
  ["FieldsExtension", "QueryExtension", "SortExtension", "TokenPaginationExtension",
    "FilterExtension", "FreeTextExtension"]

/-- What is installed if the catalogue can be changed. -/
def writeExtensions : List String :=
  ["TransactionExtension", "BulkTransactionExtension"]

def extensionsOf (env : Environment) : List String :=
  let writes := if env.flag "ENABLE_TRANSACTIONS_EXTENSIONS" (.bool true) then writeExtensions
      else []
  "AggregationExtension" :: writes ++ searchExtensions

/-- What a filter can do beyond the standard. -/
def filterConformance : List String :=
  ["acm"]

/-- The service that the environment asks for. -/
def ofEnvironment (backend : Backend) (registry : Routes.Registry) (env : Environment) :
    Outcome App := do
  let _ ← Connection.ofEnvironment backend env
  let routes ← Routes.allProtected registry env ""
  let name := "stac-fastapi-" ++ backend.name
  return {
    backend := backend
    title := env.getD "STAC_FASTAPI_TITLE" name
    description := env.getD "STAC_FASTAPI_DESCRIPTION" name
    version := env.getD "STAC_FASTAPI_VERSION" StacCatalog.version
    extensions := extensionsOf env
    landingPageId := env.getD "STAC_FASTAPI_LANDING_PAGE_ID" "stac-fastapi"
    routes := routes
    rootPath := env.getD "STAC_FASTAPI_ROOT_PATH" ""
    rateLimit := Routes.rateLimit env .null }

/-- What the service does before the first request: it says how indices are to be created, and
creates the index of collections. -/
def startup (ctx : Context) : Program Unit := do
  Indices.putTemplates
  Indices.createCollections ctx

def launch (app : App) (host : String) (port : Nat) (reload : Bool) : Launch :=
  ⟨"stac_fastapi." ++ app.backend.name ++ ".app:app", host, port, "info", reload⟩

def run {α : Type} (server : Option (Launch → α)) (how : Launch) : Outcome α :=
  match server with
  | some start => .ok (start how)
  | none => .error .noServer

/-- The service behind an adapter for single events, if there is one: `create_handler`. -/
def handler {α : Type} (adapter : Option (App → α)) (app : App) : Option α :=
  adapter.map (· app)

end App

end StacCatalog
