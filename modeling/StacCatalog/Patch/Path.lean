import StacCatalog.Patch.Key

/-!
# A path into a document, taken apart for use in a script
-/

namespace StacCatalog.Patch

/-- A path taken apart: `ElasticPath`. -/
structure Path where
  /-- The keys joined by points; a position stands in brackets. -/
  path : String
  /-- All keys but the last. -/
  nest : String
  /-- The point between `nest` and `key`, if both are there. -/
  joint : String
  key : String
  /-- `path` as it stands in a script. -/
  scriptPath : String
  /-- `nest` as it stands in a script, after a point; empty if there is no nest. -/
  scriptNest : String
  scriptKey : String
  position : Option Int
  deriving DecidableEq, Repr

/-- The text before the last point, that point, and the text after it. -/
def splitLast (cs : List Char) : List Char × List Char × List Char :=
  let last := cs.reverse.takeWhile (· != '.')
  if last.length = cs.length then ([], [], cs)
  else (cs.take (cs.length - last.length - 1), ['.'], last.reverse)

/-- The position that a key stands for, if it is one. -/
def position? (key : List Char) : Outcome (Option Int) :=
  if key = ['-'] then .ok (some (-1))
  else if Text.allDigits (key.dropWhile (· == '-')) then
    match Text.readInt? (String.ofList key) with
    | some n => .ok (some n)
    | none => .error (.invalid "invalid literal for int() with base 10")
  else .ok none

namespace Path

/-- Takes a path apart. -/
def ofPointer (pointer : String) : Outcome Path := do
  let whole := (pointer.toList.dropWhile (· == '/')).map fun c => if c = '/' then '.' else c
  let (nest, joint, key) := splitLast whole
  let position ← position? key
  let (path, nest, joint, key) := match position with
    | none => (whole, nest, joint, key)
    | some n =>
      let (outer, joint, array) := splitLast nest
      (nest ++ '[' :: (toString n).toList ++ [']'], outer, joint, array)
  let scriptPath ← scriptChars path
  let scriptNest ← if nest.isEmpty then .ok [] else (scriptChars nest).map ('.' :: ·)
  let scriptKey ← scriptChars key
  return {
    path := String.ofList path
    nest := String.ofList nest
    joint := String.ofList joint
    key := String.ofList key
    scriptPath := String.ofList scriptPath
    scriptNest := String.ofList scriptNest
    scriptKey := String.ofList scriptKey
    position }

/-- The member or array that the path names. -/
def location (p : Path) : String :=
  p.nest ++ p.joint ++ p.key

/-- `location` as it stands in a script, from the point before it on. -/
def scriptLocation (p : Path) : String :=
  if p.scriptKey.toList.contains ':' then p.scriptNest ++ p.scriptKey
  else p.scriptNest ++ p.joint ++ p.scriptKey

/-- The position as an expression: one from the end is counted down from the size of the array. -/
def index (p : Path) : Json :=
  match p.position with
  | none => .null
  | some n =>
    if n < 0 then .str ("ctx._source." ++ p.location ++ ".size() - " ++ toString (-n)) else .int n

/-- A text with points and colons underscored. -/
def underscored (s : String) : String :=
  String.ofList (s.toList.map fun c => if c = '.' ∨ c = ':' then '_' else c)

/-- A text with colons underscored. -/
def withoutColons (s : String) : String :=
  String.ofList (s.toList.map fun c => if c = ':' then '_' else c)

/-- The script variable that holds the value taken from the path. -/
def variableName (p : Path) : String :=
  match p.position with
  | some _ => underscored p.location ++ "_" ++ p.index.display
  | none => underscored p.nest ++ "_" ++ withoutColons p.key

/-- The script parameter that holds the value put at the path. -/
def paramKey (p : Path) : String :=
  String.ofList (p.path.toList.filter fun c => !"/.:[]".toList.contains c)

end Path

end StacCatalog.Patch
