import StacCatalog.Fault
import StacCatalog.Settings.Backend
import StacCatalog.Settings.Environment
import StacCatalog.Text.Blank

/-!
# How the database is reached, read from the environment
-/

namespace StacCatalog

/-- Where certificates come from. -/
inductive Certificates where
  /-- Those that come with the client. -/
  | bundled
  | file (path : String)
  deriving DecidableEq, Repr

/-- A connection to the database. -/
structure Connection where
  hosts : List String
  headers : List (String × String)
  compress : Bool
  login : Option (String × String)
  timeout : Option String
  encrypted : Bool
  /-- The certificates to verify against, if they are verified. -/
  verified : Option Certificates
  deriving DecidableEq, Repr

namespace Connection

/-- The headers of every request. -/
def standardHeaders : Backend → List (String × String)
  | .elasticsearch => [("accept", "application/vnd.elasticsearch+json; compatible-with=8")]
  | .opensearch => [("accept", "application/json"), ("Content-Type", "application/json")]

/-- The text of a variable, if it is set to a text that is not empty. -/
def given (env : Environment) (name : String) : Option String :=
  (env.get? name).filter (· != "")

/-- The addresses of the hosts, from their names divided by commas. -/
def addresses (encrypted : Bool) (names port : String) : List String :=
  let scheme := if encrypted then "https" else "http"
  (names.toList.splitOn ',').map fun host =>
    scheme ++ "://" ++ String.ofList (Text.trimChars host) ++ ":" ++ port

/-- The connection that the environment configures: `_es_config`. -/
def ofEnvironment (backend : Backend) (env : Environment) : Outcome Connection :=
  let encrypted := env.flag "ES_USE_SSL" (.bool true)
  let names := Text.trim (env.getD "ES_HOST" "localhost")
  if names = "" then .error .noHost
  else
    let key := (given env "ES_API_KEY").toList.map fun k => ("x-api-key", k)
    let login := (given env "ES_USER").bind fun user => (given env "ES_PASS").map fun password =>
        (user, password)
    let verified := if encrypted && env.flag "ES_VERIFY_CERTS" (.bool true) then
        some (((env.get? "CURL_CA_BUNDLE").map Certificates.file).getD .bundled)
      else none
    .ok {
      hosts := addresses encrypted names (env.getD "ES_PORT" "9200")
      headers := standardHeaders backend ++ key
      compress := env.flag "ES_HTTP_COMPRESS" (.bool true)
      login := login
      timeout := given env "ES_TIMEOUT"
      encrypted := encrypted
      verified := verified }

/-- The keyword of the time limit. -/
def timeoutName : Backend → String
  | .elasticsearch => "request_timeout"
  | .opensearch => "timeout"

/-- The version of the encryption. -/
def encryption : Backend → String
  | .elasticsearch => "TLSv1_3"
  | .opensearch => "PROTOCOL_TLS"

/-- The keywords with which a client is made; `bundle` is the path of the certificates that come
with it. -/
def toJson (backend : Backend) (bundle : String) (c : Connection) : Json :=
  let pair : String × String → String × Json := fun (k, v) => (k, .str v)
  let certificates : Fields := match c.verified with
    | none => []
    | some .bundled => [("ca_certs", .str bundle)]
    | some (.file path) => [("ca_certs", .str path)]
  let encryption : Fields :=
    if c.encrypted then
      [("ssl_version", .str (encryption backend)), ("verify_certs", .bool c.verified.isSome)] ++
        certificates
    else []
  .obj ([("hosts", Json.ofStrings c.hosts), ("headers", .obj (c.headers.map pair))] ++
    (if c.compress then [("http_compress", .bool true)] else []) ++
    (c.login.map fun (u, p) => ("http_auth", Json.ofStrings [u, p])).toList ++
    (c.timeout.map fun t => (timeoutName backend, Json.str t)).toList ++ encryption)

end Connection

end StacCatalog
