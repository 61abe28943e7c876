import StacCatalog.Url.Parts

/-!
# Resolving a relative reference against a base URL
-/

namespace StacCatalog.Url

/-- Walks through the segments of a path: `.` stays, `..` goes one up and no further than the root.
The segments walked so far are held in reverse. -/
def walk (done : List (List Char)) : List (List Char) → List (List Char)
  | [] => done.reverse
  | segment :: rest =>
    if segment == ['.', '.'] then walk done.tail rest
    else if segment == ['.'] then walk done rest
    else walk (segment :: done) rest

/-- The segments of a relative path behind those of its base; empty segments inside are dropped. -/
def mergeSegments (base path : List (List Char)) : List (List Char) :=
  let base := if (base.getLast?.getD []).isEmpty then base else base.dropLast
  match base ++ path with
  | [] => []
  | first :: rest => first :: (rest.dropLast.filter (!·.isEmpty)) ++ rest.getLast?.toList

/-- The path of a reference that has one. -/
def resolvePath (base path : List Char) : List Char :=
  let segments := if path.head? == some '/' then path.splitOn '/'
    else mergeSegments (base.splitOn '/') (path.splitOn '/')
  let last := segments.getLast?.getD []
  let walked := walk [] segments
  let walked := if last == ['.'] || last == ['.', '.'] then walked ++ [[]] else walked
  let joined := List.intercalate ['/'] walked
  if joined.isEmpty then ['/'] else joined

/-- Resolves a reference. An empty reference is the base, and an empty base leaves the reference as
it is. -/
def joinChars (base url : List Char) : Outcome (List Char) := do
  if base.isEmpty then return url
  else if url.isEmpty then return base
  else
    let b ← Parts.read [] base
    let u ← Parts.read b.scheme url
    let scheme := String.ofList u.scheme
    if u.scheme != b.scheme || !relativeSchemes.contains scheme then return url
    else if hostSchemes.contains scheme && !u.host.isEmpty then return u.write
    else
      let host := if hostSchemes.contains scheme then b.host else u.host
      if u.path.isEmpty && u.params.isEmpty then
        let query := if u.query.isEmpty then b.query else u.query
        return { u with host, path := b.path, params := b.params, query }.write
      else return { u with host, path := resolvePath b.path u.path }.write

/-- Resolves a reference against a base. -/
def join (base url : String) : Outcome String := do
  return String.ofList (← joinChars base.toList url.toList)

end StacCatalog.Url
