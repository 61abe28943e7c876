import StacCatalog.Json.Writer
import StacCatalog.Patch.Operation
import StacCatalog.Patch.Path

/-!
# The script that carries out a patch inside the database
-/

namespace StacCatalog.Patch

/-- Commands in the order in which they were first added, each once: `ESCommandSet`. -/
abbrev CommandSet := List String

namespace CommandSet

/-- Adds a command; one that is there keeps its place. -/
def add (set : CommandSet) (command : String) : CommandSet :=
  if set.contains command then set else set ++ [command]

/-- Removes a command, which must be there. -/
def remove (set : CommandSet) (command : String) : Outcome CommandSet :=
  if set.contains command then .ok (List.erase set command)
  else .error (.missingKey (.str command))

end CommandSet

/-! ### Commands -/

/-- Where a value comes from. -/
inductive Supply where
  /-- The parameter of the path. -/
  | param
  /-- What was taken from another path. -/
  | taken (source : Path)
  /-- What stands at another path. -/
  | stored (source : Path)
  deriving DecidableEq, Repr

/-- A command of a script. -/
inductive Command where
  /-- The object that holds the last key must be there. -/
  | needNest (p : Path)
  /-- The last key must be there. -/
  | needKey (p : Path)
  /-- The position must be there. -/
  | needPosition (p : Path)
  | take (p : Path)
  /-- Put a value in; into an array it is inserted or set. -/
  | put (p : Path) (inserted : Bool) (supply : Supply)
  /-- The value must be the expected one. -/
  | expect (p : Path) (value : Json)
  deriving DecidableEq, Repr

namespace Command

/-- The statement that stops with a message. -/
def explain (message : String) : String :=
  "\x7bDebug.explain('" ++ message ++ "');\x7d"

/-- The expression of a supplied value. -/
def supplied (p : Path) : Supply → String
  | .param => "params." ++ p.paramKey
  | .taken source => source.variableName
  | .stored source => "ctx._source." ++ source.scriptPath

/-- The text of a command. -/
def render : Command → String
  | .needNest p =>
    "if (!ctx._source.containsKey('" ++ p.nest ++ "'))" ++ explain (p.nest ++ " does not exist")
  | .needKey p =>
    "if (!ctx._source" ++ p.scriptNest ++ ".containsKey('" ++ p.key ++ "'))" ++
      explain (p.key ++ "  does not exist in " ++ p.nest)
  | .needPosition p =>
    let place := "ctx._source" ++ p.scriptLocation
    let index := p.index.display
    "if ((" ++ place ++ " instanceof ArrayList && " ++ place ++ ".size() < " ++ index ++
      ") || (!(" ++ place ++ " instanceof ArrayList) && !" ++ place ++ ".containsKey('" ++
      index ++ "')))" ++ explain (p.path ++ " does not exist")
  | .take p =>
    match p.position with
    | some _ =>
      "def " ++ p.variableName ++ " = ctx._source" ++ p.scriptLocation ++ ".remove(" ++
        p.index.display ++ ");"
    | none =>
      "def " ++ p.variableName ++ " = ctx._source" ++ p.scriptNest ++ ".remove('" ++ p.key ++ "');"
  | .put p inserted supply =>
    let value := supplied p supply
    let place := "ctx._source" ++ p.scriptLocation
    match p.position with
    | some _ =>
      "if (" ++ place ++ " instanceof ArrayList)\x7b" ++ place ++ "." ++
        (if inserted then "add" else "set") ++ "(" ++ p.index.display ++ ", " ++ value ++
        ")\x7delse\x7bctx._source." ++ p.scriptPath ++ " = " ++ value ++ "\x7d"
    | none => "ctx._source." ++ p.scriptPath ++ " = " ++ value ++ ";"
  | .expect p value =>
    "if (ctx._source." ++ p.scriptPath ++ " != params." ++ p.paramKey ++ ")" ++
      "\x7bDebug.explain('Test failed `" ++ p.path ++ "` | " ++ value.write .spaced ++
      " != ' + ctx._source." ++ p.scriptPath ++ ");\x7d"

/-- Whether a command only checks. -/
def isCheck : Command → Bool
  | .needNest _ | .needKey _ | .needPosition _ => true
  | .take _ | .put .. | .expect .. => false

end Command

/-- The checks on a path: `check_commands`. A position of zero does not ask for the key on its own.
-/
def Path.checks (p : Path) (present fromPath : Bool) : List Command :=
  (if p.nest = "" then [] else [.needNest p]) ++
  (if p.position.any (· ≠ 0) || present || fromPath then [.needKey p] else []) ++
  (if fromPath && p.position.isSome then [.needPosition p] else [])

/-- The commands of an operation. -/
def Operation.commands (op : Operation) : Outcome (List Command) := do
  let p ← Path.ofPointer op.path
  match op with
  | .add .. => return p.checks false false ++ [.put p true .param]
  | .replace .. => return p.checks true false ++ [.put p false .param]
  | .test _ value => return p.checks true false ++ [.expect p value]
  | .remove _ => return p.checks true false ++ [.take p]
  | .move source _ =>
    let s ← Path.ofPointer source
    return p.checks false false ++ s.checks false true ++ [.take s, .put p true (.taken s)]
  | .copy source _ =>
    let s ← Path.ofPointer source
    return p.checks false false ++ s.checks false true ++ [.put p false (.stored s)]
  | .other .. => return p.checks false false

/-- The parameter of an operation. -/
def Operation.param (op : Operation) : Outcome Fields := do
  match op with
  | .add path value | .replace path value | .test path value =>
    return [((← Path.ofPointer path).paramKey, value)]
  | _ => return []

/-- A script with its parameters. -/
structure Script where
  source : String
  params : Fields
  deriving DecidableEq, Repr

def Script.toJson (s : Script) : Json :=
  .obj [("source", .str s.source), ("lang", .str "painless"), ("params", .obj s.params)]

/-- The set of commands of a list, in order. -/
def commandSet (commands : List Command) : CommandSet :=
  commands.foldl (fun set command => set.add command.render) []

/-- The script of a patch: `operations_to_script`. A patch without operations has none. -/
def script (operations : List Operation) : Outcome Script := do
  let commands ← operations.mapM Operation.commands
  let params ← operations.mapM Operation.param
  if operations.isEmpty then .error (.unset "source")
  else
    return {
      source := String.join (commandSet commands.flatten)
      params := Fields.insertAll [] params.flatten }

end StacCatalog.Patch
