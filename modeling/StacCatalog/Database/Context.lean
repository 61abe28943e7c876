import StacCatalog.Database.Program

/-!
# What an operation of the catalogue depends on besides the database
-/

namespace StacCatalog

/-- What all programs know. -/
structure Context where
  backend : Backend
  naming : Naming
  env : Environment
  now : Time.Moment
  /-- Whether a batch fails when one of its items cannot be stored. -/
  raiseOnBulkError : Bool
  /-- The extensions that are on, by name. -/
  extensions : List String
  library : Library
  deriving Inhabited

namespace Context

/-- When a write becomes visible: as the request says, else as the environment says. -/
def refresh (ctx : Context) (given : Option Json) : Outcome Refresh := do
  match given with
  | some value => Refresh.read ctx.env value
  | none => Refresh.read ctx.env (← Refresh.ofEnvironment ctx.env).toJson

def aliasFor (ctx : Context) (collection : Json) : Outcome String :=
  ctx.naming.aliasFor collection

def documentId (item collection : Json) : Json :=
  .str (Naming.documentId item collection)

end Context

namespace Program

variable {α : Type}

/-- Turns the database's report that a document is absent into a fault of the catalogue. -/
def orMissing (p : Program α) (what : Missing) : Program α :=
  p.recover fun fault => .fail (if fault = .absent then .notFound what else fault)

/-- Turns the database's refusal of a request into a refusal of the catalogue. -/
def orRefused (p : Program α) : Program α :=
  p.recover fun fault => match fault with
    | .badRequest cause => .fail (.refused 400 cause [])
    | other => .fail other

end Program

end StacCatalog
