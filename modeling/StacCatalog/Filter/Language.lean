import StacCatalog.Json.Parse
import StacCatalog.Library
import StacCatalog.Url.Percent

/-!
# The languages in which a request can write a filter: JSON, or a text
-/

namespace StacCatalog.Filter

/-- The text of a query parameter with its escapes resolved. -/
def unescaped (value : Json) : Outcome String := do
  return Url.unescape (← value.text "replace").toList

/-- The filter of a query parameter in JSON. -/
def ofParameter (value : Json) : Outcome Json := do
  Json.parse (← unescaped value)

/-- The filter that a text of the text language says, by way of its JSON text. -/
def ofText (library : Library) (value : Json) : Outcome Json := do
  Json.parse (← library.filterText value)

/-- The filter of a request, in the language it names: `get_filter`. -/
def ofRequest (library : Library) (filter language : Json) : Outcome Json :=
  if language == .str "cql2-text" then ofText library filter
  else if language == .str "cql2-json" then
    match filter with
    | .str _ => ofParameter filter
    | v => .ok v
  else .error (.http 400 ("Unknown filter-lang: " ++ language.display ++
    ". Only cql2-json or cql2-text are supported."))

end StacCatalog.Filter
