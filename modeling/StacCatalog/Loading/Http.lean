import StacCatalog.Loading.Upload
import StacCatalog.Text.Decimal
import StacCatalog.Url.Parts

/-!
# Posts as messages: what is sent to a server for a post, and what its response says
-/

namespace StacCatalog.Loading

/-- A server, and the path under which the catalogue is found on it. -/
structure Server where
  host : String
  port : String
  path : String
  deriving DecidableEq, Repr

def Server.ofUrl? (url : String) : Option Server :=
  match Url.Parts.read [] url.toList with
  | .ok parts =>
    if parts.scheme != "http".toList || parts.host.isEmpty then none
    else
      let (host, port) := Url.cut ':' parts.host
      let path := (parts.path.reverse.dropWhile (· == '/')).reverse
      some ⟨String.ofList host, String.ofList (port.getD ['8', '0']), String.ofList path⟩
  | .error _ => none

def Server.message (server : Server) (path : String) (body : Json) : String :=
  let text := body.write .tight
  "POST " ++ server.path ++ path ++ " HTTP/1.0\r\n" ++
  "Host: " ++ server.host ++ ":" ++ server.port ++ "\r\n" ++
  "Accept: */*\r\n" ++
  "Content-Type: application/json\r\n" ++
  "Content-Length: " ++ toString text.utf8ByteSize ++ "\r\n\r\n" ++ text

/-- What follows the blank line of a response. -/
def responseText : List Char → List Char
  | '\r' :: '\n' :: '\r' :: '\n' :: rest => rest
  | _ :: rest => responseText rest
  | [] => []

/-- The answer in a response. -/
def Answer.ofResponse? (response : String) : Option Answer :=
  let cs := response.toList
  let afterVersion := (cs.dropWhile (· != ' ')).drop 1
  let digits := afterVersion.takeWhile Char.isDigit
  if digits.isEmpty then none
  else some ⟨Text.digitsToNat digits, String.ofList (responseText cs)⟩

end StacCatalog.Loading
