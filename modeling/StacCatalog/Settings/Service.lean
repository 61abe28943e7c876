import StacCatalog.Settings.Refresh

/-!
# The settings of the service, read from the environment once
-/

namespace StacCatalog

/-- The settings of the service: `ApiBaseSettings`. -/
structure Service where
  refresh : Refresh
  /-- Whether answers bypass checks and conversions. -/
  directResponse : Bool
  /-- Whether a batch fails when one of its items cannot be stored. -/
  raiseOnBulkError : Bool
  deriving DecidableEq, Repr

namespace Service

/-- The settings that the environment says. -/
def ofEnvironment (env : Environment) : Outcome Service := do
  return ⟨← Refresh.ofEnvironment env, env.flag "ENABLE_DIRECT_RESPONSE" (.bool false),
    env.flag "RAISE_ON_BULK_ERROR" (.bool false)⟩

/-- The settings by name, with those that cannot be changed. -/
def toJson (s : Service) : Json :=
  .obj [("forbidden_fields", Json.ofStrings ["type"]),
    ("indexed_fields", Json.ofStrings ["datetime"]), ("enable_response_models", .bool false),
    ("enable_direct_response", .bool s.directResponse),
    ("raise_on_bulk_error", .bool s.raiseOnBulkError), ("database_refresh", s.refresh.toJson)]

end Service

end StacCatalog
