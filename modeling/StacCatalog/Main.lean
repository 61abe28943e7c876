import Std.Async.DNS
import Std.Async.TCP
import StacCatalog.Loading.Http

/-!
# The loader as a program: it reads files, posts documents over a connection, and prints how it goes
-/

open StacCatalog StacCatalog.Loading

/-- What stands in a folder or at a path, with the texts of the files that may be loaded. -/
def lookAt (name : String) : IO Place := do
  let path := (← IO.currentDir) / name
  if name = "" || !(← path.pathExists) then return .absent
  else if !(← path.isDir) then return .file
  else
    let entries ← (← path.readDir).toList.mapM fun entry => do
      if ← entry.path.isDir then return (entry.fileName, Entry.folder)
      else if entry.fileName.endsWith ".json" then
        return (entry.fileName, Entry.file (← IO.FS.readFile entry.path))
      else return (entry.fileName, Entry.file "")
    return .folder entries

/-- Sends bytes to a server and waits for all that it sends back. -/
partial def exchange (server : Server) (message : ByteArray) : Std.Async.Async ByteArray := do
  let some address := (← Std.Async.DNS.getAddrInfo server.host server.port (some .ipv4))[0]?
    | throw (IO.userError ("no address for " ++ server.host))
  let port := (server.port.toNat?.getD 80).toUInt16
  let client ← Std.Async.TCP.Socket.Client.mk
  match address with
  | .v4 addr => client.connect (.v4 ⟨addr, port⟩)
  | .v6 addr => client.connect (.v6 ⟨addr, port⟩)
  client.send message
  let rec receive (bytes : ByteArray) : Std.Async.Async ByteArray := do
    match ← client.recv? 65536 with
    | some more => receive (bytes ++ more)
    | none => return bytes
  receive ByteArray.empty

def post (server : Server) (path : String) (body : Json) : IO Answer := do
  let response ← (exchange server (server.message path body).toUTF8).block
  match (String.fromUTF8? response).bind Answer.ofResponse? with
  | some answer => return answer
  | none => throw (IO.userError "the response cannot be read")

def carryOut (server : Server) : Upload Unit → IO UInt32
  | .done _ => return 0
  | .fail fault => do
    IO.eprintln fault.text
    return 1
  | .abort message => do
    IO.eprint (abortText message)
    return 1
  | .say line next => do
    IO.println line
    carryOut server next
  | .post path body next => do
    let answer ← post server path body
    carryOut server (next answer)

/-- Loads a folder into a catalogue. -/
def main (args : List String) : IO UInt32 := do
  let misuse : IO UInt32 := do
    IO.eprint (help "load")
    return 2
  match Command.ofArguments args with
  | .help =>
    IO.print (help "load")
    return 0
  | .misuse => misuse
  | .load options =>
    match uploadFrom? options (← lookAt options.folder), Server.ofUrl? options.baseUrl with
    | some upload, some server => carryOut server upload
    | _, _ => misuse
