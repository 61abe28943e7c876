import StacCatalog.Json.Access
import StacCatalog.Settings.Environment

/-!
# Limiting the rate of requests
-/

namespace StacCatalog.Routes

/-- A part of the service that a limit installs. -/
inductive LimitPart where
  /-- What answers a request that is refused. -/
  | refusalHandler
  /-- What counts requests. -/
  | counter
  /-- What every request passes through. -/
  | gate
  /-- The limit of the gate. -/
  | rate (text : String)
  deriving DecidableEq, Repr

/-- The limit, given or configured: `get_limiter`. -/
def rateLimit (env : Environment) (given : Json) : Option String :=
  if given.truthy then some given.display
  else (env.get? "STAC_FASTAPI_RATE_LIMIT").filter (· != "")

/-- What a limit installs: `setup_rate_limit`. -/
def limitParts (limit : Option String) : List LimitPart :=
  match limit with
  | some text => [.refusalHandler, .counter, .gate, .rate text]
  | none => []

/-- What the gate does with a request within the limit. -/
def passOn {α β : Type} (next : α → β) (request : α) : β :=
  next request

end StacCatalog.Routes
