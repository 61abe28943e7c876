import StacCatalog.Fault

/-!
# Reading a value that may not have the expected shape
-/

namespace StacCatalog.Json

/-- The fault of taking a part of a value that has none. -/
def notSubscriptable (value : Json) : Fault :=
  .wrongType ("'" ++ value.kindName ++ "' object is not subscriptable")

/-- The value of a name, which must be there. -/
def item (value : Json) (name : String) : Outcome Json :=
  match value with
  | .obj fields =>
    match Fields.get? fields name with
    | some v => .ok v
    | none => .error (.missingKey (.str name))
  | .arr _ => .error (.wrongType "list indices must be integers or slices, not str")
  | .str _ => .error (.wrongType "string indices must be integers, not 'str'")
  | v => .error (notSubscriptable v)

/-- The element at a position, which must be there. -/
def nth (value : Json) (i : Nat) : Outcome Json :=
  match value with
  | .arr items =>
    match items[i]? with
    | some v => .ok v
    | none => .error (.outOfRange "list index out of range")
  | .str s =>
    match s.toList[i]? with
    | some c => .ok (.str (String.singleton c))
    | none => .error (.outOfRange "string index out of range")
  | .obj _ => .error (.missingKey (.int i))
  | v => .error (notSubscriptable v)

/-- The parts one walks over: elements of an array, characters of a text, names of an object. -/
def elements (value : Json) : Outcome (List Json) :=
  match value with
  | .arr items => .ok items
  | .str s => .ok (s.toList.map fun c => .str (String.singleton c))
  | .obj fields => .ok (fields.map fun entry => .str entry.1)
  | v => .error (.wrongType ("'" ++ v.kindName ++ "' object is not iterable"))

/-- The value of a name in what must be an object, or `null`. -/
def lookup (value : Json) (name : String) : Outcome Json :=
  match value with
  | .obj fields => .ok (Fields.getD fields name)
  | v => .error (.noMember v.kindName "get")

/-- The value of a name in what must be an object, or a default. -/
def lookupD (value : Json) (name : String) (default : Json) : Outcome Json :=
  match value with
  | .obj fields => .ok ((Fields.get? fields name).getD default)
  | v => .error (.noMember v.kindName "get")

/-- The entries of what must be an object. -/
def entries (value : Json) : Outcome Fields :=
  match value with
  | .obj fields => .ok fields
  | v => .error (.noMember v.kindName "items")

/-- The text of what must be a text, for the member that is asked of it. -/
def text (value : Json) (member : String) : Outcome String :=
  match value with
  | .str s => .ok s
  | v => .error (.noMember v.kindName member)

/-- The text of what must be a text, to be searched by a pattern. -/
def searched (value : Json) : Outcome String :=
  match value with
  | .str s => .ok s
  | v => .error (.wrongType ("expected string or bytes-like object, got '" ++ v.kindName ++ "'"))

/-- Whether a text occurs in another. -/
def occursIn (part whole : List Char) : Bool :=
  match whole with
  | [] => part.isEmpty
  | _ :: rest => part.isPrefixOf whole || occursIn part rest

/-- Whether a name is among the names of an object, the elements of an array, or occurs in a text.
-/
def contains (value : Json) (name : String) : Outcome Bool :=
  match value with
  | .obj fields => .ok (Fields.has fields name)
  | .arr items => .ok (items.any (· == .str name))
  | .str s => .ok (occursIn name.toList s.toList)
  | v => .error (.wrongType ("argument of type '" ++ v.kindName ++ "' is not iterable"))

/-- The fault of using a value as a key, if it cannot be one. -/
def hashable (value : Json) : Outcome Unit :=
  match value with
  | .arr _ | .obj _ => .error (.wrongType ("unhashable type: '" ++ value.kindName ++ "'"))
  | _ => .ok ()

/-- The value of a key in what must be an object, or a default. Only a text is the name of anything.
-/
def lookupKey (value key default : Json) : Outcome Json := do
  let _ ← value.lookup ""
  key.hashable
  match key with
  | .str name => value.lookupD name default
  | _ => return default

/-- Replaces the value of a name in what must be an object. -/
def setItem (value : Json) (name : String) (new : Json) : Outcome Json :=
  match value with
  | .obj fields => .ok (.obj (Fields.insert fields name new))
  | .arr _ => .error (.wrongType "list indices must be integers or slices, not str")
  | v => .error (.wrongType ("'" ++ v.kindName ++ "' object does not support item assignment"))

def size (value : Json) : Outcome Nat :=
  match value with
  | .arr items => .ok items.length
  | .str s => .ok s.length
  | .obj fields => .ok fields.length
  | v => .error (.wrongType ("object of type '" ++ v.kindName ++ "' has no len()"))

end StacCatalog.Json
