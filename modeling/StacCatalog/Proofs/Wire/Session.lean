import StacCatalog.Proofs.Placement.Runs
import StacCatalog.Proofs.Wire.Memory
import StacCatalog.Proofs.Wire.Search

/-!
# Whole sessions on either backend
-/

namespace StacCatalog

namespace Session

/-- A step of a session. -/
inductive Step where
  | listCollections (token : Json) (limit : Int) (r : Request)
  | search (parts : List Search.Part) (limit token sort collections ignoreUnavailable : Json)
  | findItem (collection item : Json)
  | createItem (item : Json) (existOk : Bool) (refresh : Option Json)
  | deleteItem (collection item : Json) (refresh : Option Json)
  | patchItem (collection item : Json) (operations : List Patch.Operation) (refresh : Json)
  | storeItems (mode : BulkMode) (collection items : Json) (refresh : Option Json)
  | createCollection (collection : Json) (refresh : Option Json)
  | updateCollection (id collection : Json) (refresh : Option Json)
  | deleteCollection (id : Json) (refresh : Option Json)

inductive Result where
  | done
  | document (document : Json)
  | collections (collections : List Json) (token : Json)
  | items (found : Searching.Found)
  | stored (count errors : Json)

namespace Step

def program (ctx : Context) : Step → Program Result
  | .listCollections token limit r => do
    let (collections, token) ← Collections.page ctx token (.int limit) r
    return .collections collections token
  | .search parts limit token sort collections ignoreUnavailable => do
    let search ← Searching.build ctx parts
    return .items (← Searching.page ctx search limit token sort collections ignoreUnavailable)
  | .findItem collection item => return .document (← Items.find ctx collection item)
  | .createItem item existOk refresh => return .document (← Items.create ctx item existOk refresh)
  | .deleteItem collection item refresh => do
    Items.delete ctx collection item refresh
    return .done
  | .patchItem collection item operations refresh =>
    return .document (← Items.patch ctx collection item operations refresh)
  | .storeItems mode collection items refresh => do
    let (count, errors) ← Items.bulk ctx mode collection items refresh
    return .stored count errors
  | .createCollection collection refresh => do
    Collections.create ctx collection refresh
    return .done
  | .updateCollection id collection refresh => do
    Collections.update ctx id collection refresh
    return .done
  | .deleteCollection id refresh => do
    Collections.delete ctx id refresh
    return .done

end Step

end Session

/-! ### Items -/

namespace Items

end Items

namespace Engine

open Program Session

variable {σ : Type} (engine : Engine σ)

/-- Takes one step on a backend, with a new client: its result, and the database afterwards. -/
def step (backend : Backend) (s : σ) (entry : Context × Step) : Outcome Result × σ :=
  let run := (entry.2.program (entry.1.on backend)).run (engine.answer entry.1.naming backend)
      (.of s)
  (run.1, run.2.database)

end Engine

end StacCatalog
