import StacCatalog.Database.Store
import StacCatalog.Proofs.Wire.Engine

/-!
# The store held in memory answers requests by what they say
-/

namespace StacCatalog.Store

/-- The text among the keywords under a key. -/
def textOf (args : Fields) (key : String) : String :=
  (Fields.getD args key).str?.getD ""

/-- An action of a batch, read back. -/
def actionOf (action : Json) : BulkAction :=
  ⟨(action.field "_index").str?.getD "", (action.field "_id").str?.getD "", action.field "_source"⟩

/-- The actions of a batch. -/
def actionsOf (args : Fields) : List BulkAction :=
  match Fields.getD args "actions" with
  | .arr actions => actions.map actionOf
  | _ => []

/-- The alias that an index is created with. -/
def aliasIn (args : Fields) : String :=
  match (Fields.getD args "body").field "aliases" with
  | .obj ((name, _) :: _) => name
  | _ => ""

/-- A document that is found. -/
def hit : Json × Json → Json
  | (key, document) => .obj [("_source", document), ("sort", .arr [key])]

/-- The documents behind the one with a sort key. -/
def after (documents : Documents) : Json → Documents
  | .arr [key] => (documents.dropWhile fun entry => !entry.1.sameKey key).drop 1
  | _ => documents

/-- As many documents as are asked for. -/
def atMost (documents : Documents) : Json → Documents
  | .int n => documents.take n.toNat
  | _ => documents

/-- The answer of a search: a page of the documents of an index. -/
def search (s : Store) (args : Fields) : Json :=
  let body := Fields.getD args "body"
  let size := if Fields.has args "size" then Fields.getD args "size" else body.field "size"
  let documents := s.documentsOf (textOf args "index")
  .single "hits" (.obj [
    ("hits", .arr ((atMost (after documents (body.field "search_after")) size).map hit)),
    ("total", .obj [("value", .int documents.length), ("relation", .str "eq")])])

/-! ### Answering -/

/-- Answers a request by what it says. -/
def serve (s : Store) (x : Sent) : Reply × Store :=
  let index := textOf x.args "index"
  let id := Fields.getD x.args "id"
  match x.name with
  | "exists" => s.answer [] (.exists index id)
  | "get" => s.answer [] (.get index id)
  | "index" => s.answer [] (.index index id (Fields.getD x.args "body") .later)
  | "delete" => s.answer [] (.delete index id .later)
  | "update" => (.value (.single "result" (.str "updated")), s)
  | "search" => (.value (s.search x.args), s)
  | "count" => (.value (.single "count" (.int (s.documentsOf index).length)), s)
  | "indices.create" => s.answer [] (.createIndex index (aliasIn x.args) .items)
  | "indices.exists" => s.answer [] (.indexExists index)
  | "indices.resolve_index" => s.answer [] (.resolveAlias (textOf x.args "name"))
  | "indices.delete_alias" =>
    s.answer [] (.deleteAlias (Fields.getD x.args "index") (Fields.getD x.args "name"))
  | "indices.delete" => s.answer [] (.deleteIndex (Fields.getD x.args "index"))
  | "bulk" | "async_bulk" => s.answer [] (.bulk .blocking (actionsOf x.args) .later false)
  | _ => (.value (.obj []), s)

theorem ranked_search (s : Store) (args : Fields) : (s.search args).Ranked := by
  intro hits items hhits hitems hit hmem
  cases hhits
  cases hitems
  obtain ⟨entry, _, rfl⟩ := List.mem_map.mp hmem
  exact ⟨entry.1, [], rfl⟩

/-- A database in memory. -/
def engine : Engine Store where
  serve := serve
  ranked := by
    rintro s ⟨_, args⟩ answer rfl hanswer
    have hsearch : Reply.value (s.search args) = .value answer := hanswer
    cases hsearch
    exact ranked_search s args
  reported := by
    rintro s ⟨_, args⟩ answer stored errors rfl hanswer hpair
    have hbulk : (s.answer [] (.bulk .blocking (actionsOf args) .later false)).1 = .value answer :=
        hanswer
    cases hbulk
    cases hpair
    exact ⟨_, rfl⟩
  known := by
    intro s index
    refine ⟨.bool (s.hasIndex index), rfl, fun hfound body => ⟨.value (.obj []), .obj [], ?_, rfl⟩⟩
    have hregister : ∀ aliasName, s.register index aliasName = s := fun _ => if_pos hfound
    exact congrArg (Reply.value (.obj []), ·) (hregister _)

end StacCatalog.Store
