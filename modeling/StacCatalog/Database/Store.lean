import StacCatalog.Database.Program

/-!
# A database held in memory
-/

namespace StacCatalog

/-- The documents of an index by their ids. -/
abbrev Documents := Json.Table

/-- A store: documents by index, and the aliases of the indices. -/
structure Store where
  documents : List (String × Documents)
  indices : List (String × List String)
  deriving DecidableEq, Repr, Inhabited

namespace Store

def documentsOf (s : Store) (index : String) : Documents :=
  (s.documents.lookup index).getD []

def find? (s : Store) (index : String) (id : Json) : Option Json :=
  (s.documentsOf index).get? id

/-- Replaces the documents of an index. -/
def setDocuments (s : Store) (index : String) (docs : Documents) : Store :=
  { s with documents := Keyed.set s.documents index docs }

def put (s : Store) (index : String) (id document : Json) : Store :=
  s.setDocuments index ((s.documentsOf index).set id document)

def remove (s : Store) (index : String) (id : Json) : Store :=
  s.setDocuments index ((s.documentsOf index).erase id)

/-- Replacing the documents of an index leaves the other indices alone. -/
theorem documentsOf_setDocuments (s : Store) (index other : String) (docs : Documents) :
    (s.setDocuments index docs).documentsOf other =
      if other = index then docs else s.documentsOf other := by
  by_cases h : other = index <;> simp [documentsOf, setDocuments, Keyed.lookup_set, h]

/-- Storing a document is seen at its own address and nowhere else. -/
theorem find?_put (s : Store) (index other : String) (id key document : Json) :
    (s.put index id document).find? other key =
      if other = index ∧ id.sameKey key then some document else s.find? other key := by
  by_cases h : other = index <;> simp [find?, put, documentsOf_setDocuments, Json.Table.get?_set, h]

theorem find?_remove (s : Store) (index other : String) (id key : Json) :
    (s.remove index id).find? other key =
      if other = index ∧ id.sameKey key then none else s.find? other key := by
  by_cases h : other = index <;> simp [find?, remove, documentsOf_setDocuments,
    Json.Table.get?_erase, h]

/-- The store that JSON objects of documents describe. -/
def ofJson (v : Json) : Store :=
  let documents := (v.fields?.getD []).map fun (index, docs) =>
    (index, (docs.fields?.getD []).map fun (id, document) => (Json.str id, document))
  ⟨documents, []⟩

def documentsJson (s : Store) : Json :=
  .obj (s.documents.map fun (index, docs) =>
    (index, .obj docs.toFields))

/-- The indices with their aliases as JSON. -/
def indicesJson (s : Store) : Json :=
  .obj (s.indices.map fun (index, aliases) => (index, Json.ofStrings aliases))

/-! ### Indices -/

def hasIndex (s : Store) (index : String) : Bool :=
  (s.indices.lookup index).isSome

/-- Creates an index with an alias, unless it is there. -/
def register (s : Store) (index aliasName : String) : Store :=
  if s.hasIndex index then s else { s with indices := s.indices ++ [(index, [aliasName])] }

/-- The indices that have an alias, in order. -/
def owners (s : Store) (aliasName : String) : List String :=
  ((s.indices.filter fun entry => entry.2.contains aliasName).map Prod.fst).mergeSort fun a b =>
    decide (a ≤ b)

/-- The answer to the question which indices have an alias. -/
def resolution (s : Store) (aliasName : String) : Json :=
  let owners := s.owners aliasName
  .single "aliases" (.arr (
    if owners.isEmpty then []
    else [.obj [("name", .str aliasName), ("indices", Json.ofStrings owners)]]))

/-- Whether a value names an index: it is its name, or a list that has its name. -/
def named (value : Json) (index : String) : Bool :=
  match value with
  | .str s => s == index
  | .arr items => items.contains (.str index)
  | _ => false

def dropAlias (s : Store) (indices aliasName : Json) : Store :=
  let keep (entry : String × List String) : String × List String :=
    if named indices entry.1 then (entry.1, entry.2.filter fun a => aliasName ≠ .str a) else entry
  { s with indices := s.indices.map keep }

def dropIndices (s : Store) (indices : Json) : Store :=
  { s with indices := s.indices.filter fun entry => !named indices entry.1 }

/-- Stores the documents of a batch, except those whose id is refused; the refused ids, and the
store afterwards. -/
def putAll (s : Store) (refused : List String) : List BulkAction → List String × Store
  | [] => ([], s)
  | a :: rest =>
    if refused.contains a.id then
      let (failed, s) := s.putAll refused rest
      (a.id :: failed, s)
    else (s.put a.index (.str a.id) a.document).putAll refused rest

/-- The answer of a search that finds nothing. -/
def noHits : Json :=
  .obj [("hits", .obj [("hits", .arr []),
    ("total", .obj [("value", .int 0), ("relation", .str "eq")])]), ("aggregations", .obj [])]

/-- Answers a call about one id, which must be fit to be a key. -/
def keyed (s : Store) (id : Json) (answer : Reply × Store) : Reply × Store :=
  match id.hashable with
  | .ok () => answer
  | .error fault => (.fault fault, s)

/-- Answers a call. Documents of a batch whose id is in `refused` are not stored. -/
def answer (refused : List String) (s : Store) : Call → Reply × Store
  | .exists index id => s.keyed id (.value (.bool (s.find? index id).isSome), s)
  | .get index id =>
    s.keyed id <| match s.find? index id with
      | some document => (.value (.single "_source" document), s)
      | none => (.fault .absent, s)
  | .index place id document _ =>
    s.keyed id (.value (.single "result" (.str "created")), s.put place id document)
  | .delete index id _ =>
    s.keyed id <| match s.find? index id with
      | some _ => (.value (.single "result" (.str "deleted")), s.remove index id)
      | none => (.fault .absent, s)
  | .update .. => (.value (.single "result" (.str "updated")), s)
  | .listCollections .. | .findItems _ | .aggregate _ | .uniqueValues .. => (.value noHits, s)
  | .count .. => (.value (.single "count" (.int 0)), s)
  | .createIndex index aliasName _ => (.value (.obj []), s.register index aliasName)
  | .indexExists index => (.value (.bool (s.hasIndex index)), s)
  | .resolveAlias name => (.value (s.resolution name), s)
  | .deleteAlias indices name => (.value (.obj []), s.dropAlias indices name)
  | .deleteIndex indices => (.value (.obj []), s.dropIndices indices)
  | .bulk _ actions _ _ =>
    let (failed, s) := s.putAll refused actions
    (.value (.arr [.int (actions.length - failed.length),
      .arr (failed.map fun id => .single "id" (.str id))]), s)
  | .reindex _ | .deleteAll _ | .putTemplate _ | .getMapping .. | .tolerate | .close =>
    (.value (.obj []), s)

end Store

/-- A store with replies laid down in advance, by the name of the call. -/
structure Scripted where
  store : Store
  replies : List (String × List Reply)
  /-- Ids of documents that batches fail to store. -/
  refused : List String
  deriving Inhabited

namespace Scripted

/-- Takes the first reply laid down for a name. -/
def take (replies : List (String × List Reply)) (name : String) :
    Option (Reply × List (String × List Reply)) :=
  match replies with
  | [] => none
  | (k, queue) :: rest =>
    if k = name then
      match queue with
      | [] => none
      | first :: later => some (first, (k, later) :: rest)
    else (take rest name).map fun (reply, rest) => (reply, (k, queue) :: rest)

/-- Answers a call: by the next reply laid down for it, else from the store. -/
def answer (s : Scripted) (c : Call) : Reply × Scripted :=
  match take s.replies c.name with
  | some (reply, replies) => (reply, { s with replies := replies })
  | none =>
    let (reply, store) := s.store.answer s.refused c
    (reply, { s with store := store })

end Scripted

end StacCatalog
