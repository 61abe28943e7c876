import StacCatalog.Json.Parse

/-!
# The configuration of protected routes
-/

namespace StacCatalog.Routes

/-! ### What a configuration must look like -/

/-- The methods that a route can have. -/
def methods : List String :=
  ["*", "GET", "POST", "PUT", "PATCH", "DELETE"]

/-- Whether a value is one of these methods. -/
def isMethod : Json → Bool
  | .str s => methods.contains s
  | _ => false

/-- Whether a value is a path: a star, perhaps before the end of a line, or a text with a slash. -/
def isPath : Json → Bool
  | .str s => s == "*" || s == "*\n" || s.toList.contains '/'
  | _ => false

/-- Whether a value is a text. -/
def isText : Json → Bool
  | .str _ => true
  | _ => false

/-- Whether the values of a list are all different. -/
def distinct : List Json → Bool
  | [] => true
  | v :: rest => !rest.contains v && distinct rest

/-- Whether a value is such a value, or a list of different ones. -/
def oneOrMany (p : Json → Bool) (value : Json) : Bool :=
  p value || match value with
    | .arr items => items.all p && distinct items
    | _ => false

/-- Whether a value is a list of such values. -/
def listOf (p : Json → Bool) : Json → Bool
  | .arr items => items.all p
  | _ => false

/-- Whether a member is missing or is such a value. -/
def optional (fields : Fields) (name : String) (p : Json → Bool) : Bool :=
  ((Fields.get? fields name).map p).getD true

/-- Whether a member is present and is such a value. -/
def required (fields : Fields) (name : String) (p : Json → Bool) : Bool :=
  ((Fields.get? fields name).map p).getD false

/-- Whether there are no members but those of some names. -/
def only (fields : Fields) (names : List String) : Bool :=
  (Fields.names fields).all names.contains

/-- Whether a value is a route, with at least a method and a path. -/
def isRoute : Json → Bool
  | .obj fields =>
    only fields ["method", "path", "type"] && required fields "method" (oneOrMany isMethod) &&
      required fields "path" (oneOrMany isPath) && optional fields "type" isText
  | _ => false

/-- Whether a value names something that requests depend on. -/
def isDependency : Json → Bool
  | .obj fields =>
    only fields ["method", "args", "kwargs"] && required fields "method" isText &&
      optional fields "args" isText && optional fields "kwargs" Json.isObj
  | _ => false

/-- Whether a value is an entry of a configuration: `route_dependencies_schema`. The schema also
asks under `dependencies` that the two members go together, but its dialect (draft 2020-12, for want
of another) does not know that keyword, so an entry may have only one of them. -/
def isEntry : Json → Bool
  | .obj fields =>
    only fields ["routes", "dependencies"] && optional fields "routes" (listOf isRoute) &&
      optional fields "dependencies" (listOf isDependency)
  | _ => false

/-- The configuration that a text says: `get_route_dependencies_conf`. It is for a setting that
holds the configuration itself; if the setting names a file, its content is the text. -/
def readConfig (text : String) : Outcome Json := do
  let config ← Json.parse text
  if listOf isEntry config then return config else .error .badRoutes

/-- The routes that differ from the given one by having one of the values it lists under a name. -/
def spread (name : String) (route : Json) : Outcome (List Json) := do
  match ← route.item name with
  | .arr values => values.mapM (route.setItem name)
  | _ => return [route]

/-- The routes of a list, each spread over the values it lists under a name. -/
def spreadAll (name : String) (routes : List Json) : Outcome (List Json) := do
  return (← routes.mapM (spread name)).flatten

/-- The routes of an entry, each with one path and one method: `get_routes`. -/
def expand (entry : Json) : Outcome (List Json) := do
  let routes ← (← entry.item "routes").elements
  spreadAll "method" (← spreadAll "path" routes)

end StacCatalog.Routes
