import StacCatalog.Routes.Config
import StacCatalog.Routes.Login
import StacCatalog.Settings.Environment

/-!
# What requests to a protected route depend on
-/

namespace StacCatalog.Routes

/-- What a module can provide. -/
inductive Provider where
  /-- Makes a login from credentials. -/
  | login
  /-- Makes an object from nothing. -/
  | maker (name : String)
  | function (name : String)
  | value (v : Json)
  deriving Repr

/-- What is installed: modules with what they provide. -/
abbrev Registry := List (String × List (String × Provider))

/-- What requests depend on. -/
inductive Dependency where
  | login (credentials : Credentials)
  | object (name : String)
  | function (name : String)
  | value (v : Json)
  deriving DecidableEq, Repr

/-- What an installed module provides. -/
def Registry.module (registry : Registry) (name : String) : Outcome (List (String × Provider)) :=
  if name = "" then .error (.invalid "Empty module name")
  else if name.startsWith "." then
    .error (.wrongType ("the 'package' argument is required to perform a relative import for " ++
      Text.quoted name))
  else
    match registry.lookup name with
    | some names => .ok names
    | none => .error (.noModule name)

/-- What is provided under a name. -/
def Registry.provider (registry : Registry) (module name : String) : Outcome Provider := do
  match (← registry.module module).lookup name with
  | some provider => return provider
  | none => .error (.noMember "module" name)

/-- The text before the last dot and the text after it. -/
def splitName (s : String) : Outcome (String × String) :=
  let reversed := s.toList.reverse
  match reversed.dropWhile (· != '.') with
  | [] => .error (.invalid "not enough values to unpack (expected 2, got 1)")
  | _ :: front =>
    .ok (String.ofList front.reverse, String.ofList (reversed.takeWhile (· != '.')).reverse)

/-- Makes a dependency from positional and named arguments. -/
def Provider.make (provider : Provider) (args : List Json) (named : Fields) : Outcome Dependency :=
  match provider, args, named with
  | .login, [credentials], [] => do return .login (← Credentials.ofList credentials)
  | .login, [], [("credentials", credentials)] =>
    do return .login (← Credentials.ofList credentials)
  | .login, _, _ => .error (.wrongType "a login is made from credentials")
  | .maker name, [], [] => .ok (.object name)
  | .maker name, _, _ => .error (.wrongType (name ++ "() takes no arguments"))
  | .function name, _, _ => .ok (.function name)
  | .value v, _, _ => .ok (.value v)

/-- The dependency of an entry. -/
def dependency (registry : Registry) (config : Json) : Outcome Dependency := do
  let (module, name) ← splitName (← (← config.item "method").text "rsplit")
  let provider ← registry.provider module name
  let args ← (← config.lookupD "args" (.arr [])).elements
  let named ← match ← config.lookupD "kwargs" (.obj []) with
    | .obj named => .ok named
    | _ => .error (.wrongType "argument after ** must be a mapping")
  provider.make args named

/-- All dependencies of an entry: `get_dependencies`. -/
def dependencies (registry : Registry) (entry : Json) : Outcome (List Dependency) := do
  (← (← entry.item "dependencies").elements).mapM (dependency registry)

/-- Routes with what requests to them depend on. -/
structure Protected where
  routes : List Json
  dependencies : List Dependency
  deriving DecidableEq, Repr

/-- The routes of an entry with what they depend on. -/
def protect (registry : Registry) (entry : Json) : Outcome Protected := do
  let routes ← expand entry
  return ⟨routes, ← dependencies registry entry⟩

/-- The protected routes: `get_route_dependencies`. A configuration in the environment wins over the
given one, and an empty one protects nothing. -/
def allProtected (registry : Registry) (env : Environment) (given : String) :
    Outcome (List Protected) := do
  let text := env.getD "STAC_FASTAPI_ROUTE_DEPENDENCIES" given
  if text = "" then return []
  else
    (← (← readConfig text).elements).mapM (protect registry)

end StacCatalog.Routes
