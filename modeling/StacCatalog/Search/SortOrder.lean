import StacCatalog.Json.Table

/-!
# The order of answers
-/

namespace StacCatalog

namespace SortOrder

/-- Ascending or descending, as it is sent to the database. -/
def direction (word : Json) : Json :=
  .single "order" word

/-- The sort of a search that asks for none. -/
def standard : Fields :=
  [("properties.datetime", direction (.str "desc")), ("id", direction (.str "desc")),
   ("collection", direction (.str "desc"))]

def standardNames : List String :=
  Fields.names standard

/-- The settings of item indices: documents are kept in the standard order. -/
def indexSettings : Json :=
  .single "index" (.obj [
    ("sort.field", Json.ofStrings standardNames),
    ("sort.order", .arr (standard.map fun entry => entry.2.field "order"))])

/-- A member of a sort term. -/
def member (term : Json) (name : String) : Outcome Json :=
  match term with
  | .obj entries =>
    match Fields.get? entries name with
    | some v => .ok v
    | none => .error (.noMember "SortTerm" name)
  | v => .error (.noMember v.kindName name)

/-- Adds one term, a field with a direction. A field that comes again keeps its place and takes the
later direction. -/
def addTerm (sort : Json.Table) (term : Json) : Outcome Json.Table := do
  let field ← member term "field"
  let word ← member term "direction"
  field.hashable
  return sort.set field (direction word)

/-- The sort a request asks for, by field, `none` if it asks for none: `populate_sort`. -/
def ofTerms (terms : Json) : Outcome (Option Json.Table) := do
  if terms.truthy then
    return some (← (← terms.elements).foldlM addTerm [])
  else return none

end SortOrder

end StacCatalog
