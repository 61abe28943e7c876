import StacCatalog.Json.Table

/-!
# Logging in with a name and a password
-/

namespace StacCatalog.Routes

/-- What is known of users, by their names. -/
abbrev Credentials := Json.Table

namespace Credentials

def add (known : Credentials) (credential : Json) : Outcome Credentials := do
  let name ← credential.item "username"
  name.hashable
  return Json.Table.set known name credential

def ofList (credentials : Json) : Outcome Credentials := do
  (← credentials.elements).foldlM add []

def refusal : Fault :=
  .refused 401 (.str "Incorrect username or password") [("WWW-Authenticate", .str "Basic")]

/-- Whether a given value is the known one of a name; both must be texts. -/
def agrees (given credential : Json) (name : String) : Outcome Bool := do
  let given ← given.text "encode"
  let known ← (← credential.lookup name).text "encode"
  return given == known

/-- Logs in: the name, if the password is the one that belongs to it: `BasicAuth`. -/
def login (known : Credentials) (name password : Json) : Outcome Json := do
  name.hashable
  let credential := (Json.Table.get? known name).getD .null
  if !credential.truthy then .error refusal
  else if !(← agrees name credential "username") then .error refusal
  else if !(← agrees password credential "password") then .error refusal
  else return name

end Credentials

end StacCatalog.Routes
