import StacCatalog.Text.Pattern.Replace

/-!
# Keys of a document as they stand in a script
-/

namespace StacCatalog.Patch

/-- The characters at which a path falls apart into keys. -/
def isKeyBreak (c : Char) : Bool :=
  c == '.' || c == '\'' || c == ' '

/-- The longest beginning that ends in a colon, if there is one, and what follows it. -/
def throughLastColon (cs : List Char) : Option (List Char × List Char) :=
  let after := cs.reverse.takeWhile (· != ':')
  if after.length = cs.length then none
  else some (cs.take (cs.length - after.length), after.reverse)

/-- The indexed part of a key: through its last colon, and on to a bracket. -/
def indexedPart? (key : List Char) : Option (List Char) :=
  (throughLastColon key).map fun (front, after) => front ++ after.takeWhile (· != '[')

/-- The keys of a path that are to be written as an index, each once. -/
def indexedKeys (path : List Char) : List (List Char) :=
  ((path.splitOnP isKeyBreak).filterMap indexedPart?).eraseDups

/-- The characters that mean something in a search pattern. -/
def isPatternChar (c : Char) : Bool :=
  ".\\[\x7b()*+?^$|".toList.contains c

/-- A key as an index. -/
def indexed (key : List Char) : List Char :=
  "['".toList ++ key ++ "']".toList

/-- Replaces every occurrence of a key, with a point before it if there is one. The number counts
the characters of an occurrence that are still to be skipped. -/
def replaceKey (key : List Char) : Nat → List Char → List Char
  | _, [] => []
  | skip + 1, _ :: rest => replaceKey key skip rest
  | 0, c :: rest =>
    if ('.' :: key).isPrefixOf (c :: rest) then indexed key ++ replaceKey key key.length rest
    else if key.isPrefixOf (c :: rest) then indexed key ++ replaceKey key (key.length - 1) rest
    else c :: replaceKey key 0 rest

/-- Writes a key as an index wherever it is found. -/
def writeIndexed (path key : List Char) : Outcome (List Char) :=
  if key.any isPatternChar then Text.Pattern.replaceAll ("\\.?".toList ++ key) (indexed key) path
  else .ok (replaceKey key 0 path)

/-- A path as it stands in a script: `to_es`. The keys are a set there, and are taken in the order
in which they stand in the path here; `scriptPath_reaches_iff` says what holds for every order. -/
def scriptChars (path : List Char) : Outcome (List Char) :=
  (indexedKeys path).foldlM writeIndexed path

/-- The same for texts. -/
def scriptKey (path : String) : Outcome String := do
  return String.ofList (← scriptChars path.toList)

end StacCatalog.Patch
