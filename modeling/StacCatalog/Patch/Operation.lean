import StacCatalog.Json.Access

/-!
# The operations of a patch, and merge patches as lists of operations
-/

namespace StacCatalog.Patch

/-- An operation of a patch. -/
inductive Operation where
  | add (path : String) (value : Json)
  | replace (path : String) (value : Json)
  | test (path : String) (value : Json)
  | remove (path : String)
  | move (source path : String)
  | copy (source path : String)
  /-- A step of another name: its path is checked and nothing is done. -/
  | other (name path : String) (value : Json)
  deriving DecidableEq, Repr

namespace Operation

/-- The place an operation acts on. -/
def path : Operation → String
  | .add p _ | .replace p _ | .test p _ | .remove p | .move _ p | .copy _ p | .other _ p _ => p

/-- The value an operation brings along; `null` if it brings none. -/
def value : Operation → Json
  | .add _ v | .replace _ v | .test _ v | .other _ _ v => v
  | .remove _ | .move _ _ | .copy _ _ => .null

def name : Operation → String
  | .add _ _ => "add"
  | .replace _ _ => "replace"
  | .test _ _ => "test"
  | .remove _ => "remove"
  | .move _ _ => "move"
  | .copy _ _ => "copy"
  | .other n _ _ => n

/-- The operation one level further down, below `key`. -/
def under (key : String) : Operation → Operation
  | .add p v => .add (key ++ "." ++ p) v
  | .replace p v => .replace (key ++ "." ++ p) v
  | .test p v => .test (key ++ "." ++ p) v
  | .remove p => .remove (key ++ "." ++ p)
  | .move s p => .move s (key ++ "." ++ p)
  | .copy s p => .copy s (key ++ "." ++ p)
  | .other n p v => .other n (key ++ "." ++ p) v

def ofJson (v : Json) : Outcome Operation := do
  let path ← (v.field "path").text "lstrip"
  let value := v.field "value"
  match (v.field "op").str?.getD "" with
  | "add" => return .add path value
  | "replace" => return .replace path value
  | "test" => return .test path value
  | "remove" => return .remove path
  | "move" => return .move (← (v.field "from").text "lstrip") path
  | "copy" => return .copy (← (v.field "from").text "lstrip") path
  | name => return .other name path value

def toJson (op : Operation) : Json :=
  .obj ([("op", .str op.name), ("path", .str op.path)] ++
    match op with
    | .add _ v | .replace _ v | .test _ v | .other _ _ v => [("value", v)]
    | .move s _ | .copy s _ => [("from", .str s)]
    | .remove _ => [])

end Operation

mutual

/-- The operations for one member of a merge patch. -/
def mergeMember (key : String) : Json → List Operation
  | .null => [.remove key]
  | .obj fields => (merge fields).map (·.under key)
  | value => [.add key value]

/-- The operations of a merge patch: `merge_to_operations`. -/
def merge : List (String × Json) → List Operation
  | [] => []
  | (key, value) :: rest => mergeMember key value ++ merge rest

end

end StacCatalog.Patch
