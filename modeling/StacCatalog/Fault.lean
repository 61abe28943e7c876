import StacCatalog.Json.Display

/-!
# Everything that can go wrong, by cause
-/

namespace StacCatalog

/-- What was asked for and is not stored. -/
inductive Missing where
  /-- A collection that was to be read or changed. -/
  | collection (id : Json)
  /-- The collection an item names. -/
  | parent (id : Json)
  /-- Every item of a list of collections. -/
  | items (collections : Json)
  | item (id collection : Json)
  /-- An item that was to be deleted. -/
  | deleted (id collection : Json)
  | mapping (index : String)
  deriving DecidableEq, Repr

/-- What was to be created and is there. -/
inductive Taken where
  | item (id collection : Json)
  | batchItem (id collection : Json)
  | collection (id : Json)
  deriving DecidableEq, Repr

/-- What can go wrong. -/
inductive Fault where
  | missingKey (key : Json)
  | noMember (kind member : String)
  | wrongType (detail : String)
  | outOfRange (detail : String)
  /-- A value of the right kind that cannot be used. -/
  | invalid (detail : String)
  /-- A result was asked for before it was computed. -/
  | unset (name : String)
  /-- A number or date outside the range that can be held. -/
  | overflow (detail : String)
  /-- An instant in a year that no calendar of the system counts. -/
  | noSuchYear
  | badJson (detail : String)
  | badBase64
  | badPattern
  | badRoutes
  | badModel (detail : String)
  /-- A backslash in a LIKE pattern before a character that needs none. -/
  | badEscape (sequence : String)
  /-- The values of an `in` filter are not a list. -/
  | notList (values : Json)
  | noHost
  /-- A request is refused with a status. -/
  | refused (status : Nat) (detail : Json) (headers : Fields)
  | notFound (what : Missing)
  | conflict (what : Taken)
  /-- The database knows no such document. -/
  | absent
  | badRequest (cause : Json)
  | failed (message : String)
  /-- A sequence had no element where one was needed. -/
  | exhausted
  | noServer
  | noModule (name : String)
  | notFolder
  | isFolder
  | unsupported
  deriving DecidableEq, Repr, Inhabited

/-- A value, or the fault that stopped its computation. -/
abbrev Outcome := Except Fault

namespace Missing

/-- The message about what is not stored. -/
def message : Missing → String
  | .collection id => "Collection " ++ id.display ++ " not found"
  | .parent id => "Collection " ++ id.display ++ " does not exist"
  | .items collections => "Collections '" ++ collections.display ++ "' do not exist"
  | .item id owner => "Item " ++ id.display ++ " does not exist inside Collection " ++ owner.display
  | .deleted id owner => "Item " ++ id.display ++ " in collection " ++ owner.display ++ " not found"
  | .mapping index => "Mapping for index " ++ index ++ " not found"

end Missing

namespace Taken

/-- The message about what is there already. -/
def message : Taken → String
  | .item id owner =>
    "Item " ++ id.display ++ " in collection " ++ owner.display ++ " already exists"
  | .batchItem id owner =>
    "Item " ++ id.display ++ " in collection " ++ owner.display ++ " already exists."
  | .collection id => "Collection " ++ id.display ++ " already exists"

end Taken

namespace Fault

/-- The refusal of a request, without headers. -/
def http (status : Nat) (detail : String) : Fault :=
  .refused status (.str detail) []

/-- The message of a fault that is raised on purpose. -/
def message? : Fault → Option String
  | .badEscape sequence => some ("'" ++ sequence ++ "' is not a valid escape sequence")
  | .notList values => some ("Arg " ++ values.display ++ " is not a list")
  | .noHost => some "ES_HOST environment variable is empty or invalid."
  | .refused _ detail _ => some detail.display
  | .notFound what => some what.message
  | .conflict what => some what.message
  | .noServer => some "Uvicorn must be installed in order to use command"
  | _ => none

/-- The text by which another message quotes the fault. -/
def text (fault : Fault) : String :=
  match fault with
  | .missingKey key => key.quoted
  | .noMember kind member => "'" ++ kind ++ "' object has no attribute '" ++ member ++ "'"
  | .wrongType detail => detail
  | .outOfRange detail => detail
  | .invalid detail => detail
  | .unset name =>
    "cannot access local variable '" ++ name ++ "' where it is not associated with a value"
  | .overflow detail => detail
  | .badJson detail => detail
  | .badModel detail => detail
  | .failed message => message
  | .exhausted => "coroutine raised StopIteration"
  | .noModule name => "No module named '" ++ name ++ "'"
  | f => f.message?.getD ""

end Fault

end StacCatalog
