import StacCatalog.Json.Access

/-!
# Deep update of one object by another
-/

namespace StacCatalog.Fields

mutual

/-- Updates an object by another, entry by entry. -/
def deepUpdate (into : Fields) : List (String × Json) → Fields
  | [] => into
  | (name, value) :: rest => deepUpdate (into.insert name (deepValue (into.get? name) value)) rest

/-- The value of an entry after an update. -/
def deepValue (old : Option Json) : Json → Json
  | .obj new =>
    match old with
    | some (.obj fields) => .obj (deepUpdate fields new)
    | _ => .obj new
  | new => new

end

end StacCatalog.Fields

namespace StacCatalog.Json

/-- Updates a value by another, which must be an object: `dict_deep_update`. Only an object can take
a new entry. -/
def deepUpdate (into new : Json) : Outcome Json := do
  match into, ← new.entries with
  | _, [] => return into
  | .obj fields, entries => return .obj (Fields.deepUpdate fields entries)
  | v, _ => .error (.wrongType ("'" ++ v.kindName ++ "' object does not support item assignment"))

end StacCatalog.Json
