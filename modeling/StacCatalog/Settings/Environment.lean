import StacCatalog.Json.Basic
import StacCatalog.Text.Case

/-!
# The environment of the service: names with texts, and reading yes-or-no settings from it
-/

namespace StacCatalog

/-- The environment: variables with their texts. -/
abbrev Environment := List (String × String)

namespace Environment

def get? (env : Environment) (name : String) : Option String :=
  env.lookup name

def getD (env : Environment) (name default : String) : String :=
  (env.get? name).getD default

/-- Whether a text in lower case is a yes. -/
def isYes (s : String) : Bool :=
  s == "true" || s == "1" || s == "yes" || s == "y"

/-- Whether a text in lower case is a no. -/
def isNo (s : String) : Bool :=
  s == "false" || s == "0" || s == "no" || s == "n"

/-- The text of a default; a default that is neither a truth value nor a text is a no. -/
def defaultText : Json → String
  | .bool true => "true"
  | .bool false => "false"
  | .str s => Text.lower s
  | _ => "false"

/-- The truth value of a variable: `get_bool_env`. -/
def flag (env : Environment) (name : String) (default : Json) : Bool :=
  let fallback := defaultText default
  let value := Text.lower (env.getD name fallback)
  if isYes value then true else if isNo value then false else isYes fallback

end Environment

end StacCatalog
