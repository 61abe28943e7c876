import StacCatalog.Json.Parse
import StacCatalog.Loading.Options

/-!
# Sending a collection and its items to a catalogue
-/

namespace StacCatalog.Loading

structure Answer where
  status : Int
  text : String
  deriving DecidableEq, Repr

/-- The answer that a document is stored. -/
def Answer.accepted : Answer :=
  ⟨200, ""⟩

/-- A program that posts documents and tells the user. -/
inductive Upload (α : Type) where
  | done (result : α)
  | fail (fault : Fault)
  /-- Gives up, and says why. -/
  | abort (message : String)
  | say (line : String) (next : Upload α)
  | post (path : String) (body : Json) (next : Answer → Upload α)

namespace Upload

variable {α β : Type}

def bind (u : Upload α) (f : α → Upload β) : Upload β :=
  match u with
  | .done a => f a
  | .fail fault => .fail fault
  | .abort message => .abort message
  | .say line next => .say line (next.bind f)
  | .post path body next => .post path body fun answer => (next answer).bind f

instance : Monad Upload where
  pure := .done
  bind := bind

instance : MonadLift (Except Fault) Upload where
  monadLift
    | .ok a => .done a
    | .error fault => .fail fault

def tell (line : String) : Upload Unit :=
  .say line (.done ())

def send (path : String) (body : Json) : Upload Answer :=
  .post path body .done

end Upload

inductive Entry where
  | file (text : String)
  | folder
  deriving DecidableEq, Repr

inductive Place where
  | absent
  | file
  | folder (entries : List (String × Entry))
  deriving DecidableEq, Repr

def collectionFile : String := "collection.json"

def inFolder (folder name : String) : String :=
  if folder = "" || folder.endsWith "/" then folder ++ name else folder ++ "/" ++ name

/-- The text of an entry that may hold items: a JSON file that is not the collection's. -/
def itemsText? : String × Entry → Option String
  | (name, .file text) =>
    if name.endsWith ".json" && name != collectionFile then some text else none
  | (_, .folder) => none

/-! ### Documents -/

open Upload

/-- Tells the status of an answer. -/
def tellStatus (answer : Answer) : Upload Unit :=
  tell ("Status code: " ++ toString answer.status)

/-- The collection of a folder. -/
def readCollection (folder : String) (entries : List (String × Entry)) : Upload Json :=
  match entries.lookup collectionFile with
  | some (.file text) => liftM (Json.parse text)
  | some .folder => .fail .isFolder
  | none => .abort ("File not found: " ++ inFolder folder collectionFile)

/-- Sends the collection, under the id that the user chose: `load_collection`. -/
def sendCollection (o : Options) (entries : List (String × Entry)) : Upload Unit := do
  let collection ← readCollection o.folder entries
  let collection ← collection.setItem "id" (.str o.collection)
  let answer ← send "/collections" collection
  tellStatus answer
  if answer.status = 200 || answer.status = 201 then tell ("Added collection: " ++ o.collection)
  else if answer.status = 409 then tell ("Collection: " ++ o.collection ++ " already exists")
  else tell ("Error writing " ++ o.collection ++ " collection. Message: " ++ answer.text)

def itemsPath (o : Options) : String :=
  "/collections/" ++ o.collection ++ "/items"

/-- An item as part of the collection that the user chose. -/
def adopt (o : Options) (item : Json) : Outcome Json :=
  item.setItem "collection" (.str o.collection)

def sendItem (o : Options) (item : Json) : Upload Unit := do
  let item ← adopt o item
  let answer ← send (itemsPath o) item
  if answer.status = 200 then
    tellStatus answer
    tell ("Added item: " ++ (← item.item "id").display)
  else if answer.status = 409 then
    tellStatus answer
    tell ("Item: " ++ (← item.item "id").display ++ " already exists")
  else pure ()

/-- Sends items one by one: `load_items_one_by_one`. -/
def sendOneByOne (o : Options) : List Json → Upload Unit
  | [] => .done ()
  | item :: rest => (sendItem o item).bind fun _ => sendOneByOne o rest

/-- A document of items with all its items as parts of the collection. -/
def adoptAll (o : Options) (document : Json) : Outcome Json := do
  let items ← document.item "features"
  let adopted ← (← items.elements).mapM (adopt o)
  if adopted.isEmpty then return document else document.setItem "features" (.arr adopted)

/-- Sends items in one document: `load_items_bulk_insert`. -/
def sendInBulk (o : Options) (document : Json) : Upload Unit := do
  let answer ← send (itemsPath o) (← adoptAll o document)
  if answer.status = 200 then
    tellStatus answer
    tell "Bulk inserted items successfully."
  else if answer.status = 204 then
    tellStatus answer
    tell "Bulk update successful, no content returned."
  else if answer.status = 409 then
    tellStatus answer
    tell "Conflict detected, some items might already exist."
  else pure ()

/-- Sends the collection and the items of a folder. The items are read before the collection is
sent. -/
def upload (o : Options) (entries : List (String × Entry)) : Upload Unit := do
  match entries.findSome? itemsText? with
  | none => .abort "No feature collection files found in the specified directory."
  | some text =>
    let document ← Json.parse text
    sendCollection o entries
    if o.inBulk then sendInBulk o document
    else sendOneByOne o (← (← document.item "features").elements)

/-- The upload from what stands at the chosen path; `none` if nothing does. -/
def uploadFrom? (o : Options) : Place → Option (Upload Unit)
  | .absent => none
  | .file => some (.fail .notFolder)
  | .folder entries => some (upload o entries)

/-- What the user gets. -/
structure Report where
  code : Nat
  output : String := ""
  errors : String := ""
  /-- Where the catalogue is found, if it was contacted at all. -/
  contacted : Option String := none
  posts : List (String × Json) := []
  fault : Option Fault := none
  deriving DecidableEq, Repr

/-- What the user reads when the loader gives up. -/
def abortText (message : String) : String :=
  message ++ "\nAborted!\n"

/-- The report of an upload whose posts get these answers, one after the other. -/
def Upload.report (u : Upload Unit) (answers : List Answer) : Report :=
  match u with
  | .done _ => { code := 0 }
  | .fail fault => { code := 1, fault := some fault }
  | .abort message => { code := 1, errors := abortText message }
  | .say line next =>
    let r := next.report answers
    { r with output := line ++ "\n" ++ r.output }
  | .post path body next =>
    let r := (next (answers.headD .accepted)).report answers.tail
    { r with posts := (path, body) :: r.posts }

/-- The report of a run with these arguments, among files that stand where `place` says. -/
def report (program : String) (args : List String) (place : String → Place)
    (answers : List Answer) : Report :=
  match Command.ofArguments args with
  | .help => { code := 0, output := help program }
  | .misuse => { code := 2 }
  | .load options =>
    match uploadFrom? options (place options.folder) with
    | none => { code := 2 }
    | some u => { u.report answers with contacted := some options.baseUrl }

end StacCatalog.Loading
