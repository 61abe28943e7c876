import StacCatalog.Json.Access
import StacCatalog.Settings.Environment

/-!
# When a write becomes visible to searches
-/

namespace StacCatalog

/-- When a write becomes visible. -/
inductive Refresh where
  | now
  | later
  | waited
  deriving DecidableEq, Repr, Inhabited

namespace Refresh

/-- The word for it in requests to the database. -/
def word : Refresh → String
  | .now => "true"
  | .later => "false"
  | .waited => "wait_for"

/-- At once, or later. -/
def ofBool (b : Bool) : Refresh :=
  if b then .now else .later

/-- The value as it stands in requests to the database. -/
def toJson (r : Refresh) : Json :=
  .str r.word

/-- What a request asks for: `validate_refresh`. -/
def read (env : Environment) (value : Json) : Outcome Refresh := do
  match value with
  | .bool _ => return .ofBool (env.flag "DATABASE_REFRESH" value)
  | .str s =>
    if Environment.isYes s ||
      Environment.isNo s then return .ofBool (env.flag "DATABASE_REFRESH" value)
    else if Text.lower s = "wait_for" then return .waited
    else return .later
  | v =>
    v.hashable
    .error (.noMember v.kindName "lower")

/-- What the environment asks for where a request asks for nothing. -/
def ofEnvironment (env : Environment) : Outcome Refresh :=
  read env (.str (env.getD "DATABASE_REFRESH" "false"))

end Refresh

end StacCatalog
