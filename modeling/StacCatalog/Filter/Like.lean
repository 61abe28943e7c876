import StacCatalog.Fault

/-!
# LIKE patterns as wildcard patterns of the database
-/

namespace StacCatalog.Filter

/-- The wildcard pattern of a LIKE pattern, by its characters. -/
def wildcardChars : List Char → Outcome (List Char)
  | [] => .ok []
  | '%' :: rest => do return '*' :: (← wildcardChars rest)
  | '_' :: rest => do return '?' :: (← wildcardChars rest)
  | ['\\'] => .error (.badEscape "\\")
  | '\\' :: c :: rest =>
    if c = '\\' ∨ c = '%' ∨ c = '_' then do return c :: (← wildcardChars rest)
    else if c = '\n' then
      if rest.isEmpty then .error (.badEscape "\\") else do return '\\' :: '\n' ::
        (← wildcardChars rest)
    else .error (.badEscape (String.ofList ['\\', c]))
  | c :: rest => do return c :: (← wildcardChars rest)

/-- The wildcard pattern of a LIKE pattern: `cql2_like_to_es`. -/
def wildcard (pattern : String) : Outcome String := do
  return String.ofList (← wildcardChars pattern.toList)

end StacCatalog.Filter
