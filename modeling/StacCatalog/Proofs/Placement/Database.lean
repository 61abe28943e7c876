import StacCatalog.Database.Store
import StacCatalog.Proofs.Patch.Apply

/-!
# Databases, as far as it matters where documents are
-/

namespace StacCatalog

/-! ### What scripts touch -/

namespace Patch

/-- A character that stands for itself in a script: one of a name, or one that no script has a use
for. -/
def plainChar (c : Char) : Bool :=
  c.isAlphanum || "_:-./".toList.contains c || 127 < c.toNat

/-- Whether a script reads a path as the keys it is made of. -/
def plainPath (path : String) : Bool :=
  path.toList.all plainChar && (keysOf path).all (· != "")

/-- Whether a text can stand between single quotes in a script. -/
def quotable (text : String) : Bool :=
  text.toList.all fun c => !"'\\\n\r".toList.contains c

namespace Operation

/-- Whether the script of an operation does what the operation says. A test shows the value it
expects in its message, so that value must not break out of the message. -/
def plain (op : Operation) : Bool :=
  op.paths.all plainPath && match op with
    | .test _ value => quotable (value.write .spaced)
    | _ => true

/-- Whether an operation touches a member of the document: it writes to a path that begins with it,
or takes a value from there. A test, or a step of another name, touches nothing. -/
def Touches (name : String) : Operation → Prop
  | .test .. | .other .. => False
  | op => ∃ path ∈ op.paths, (keysOf path).head? = some name

end Operation

end Patch

/-! ### Moves -/

/-- Replaces all occurrences of a text, from left to right. The number counts the characters of an
occurrence that are still to be skipped. -/
def replaceFrom (part new : List Char) : Nat → List Char → List Char
  | _, [] => []
  | skip + 1, _ :: rest => replaceFrom part new skip rest
  | 0, c :: rest =>
    if part.isPrefixOf (c :: rest) then new ++ replaceFrom part new (part.length - 1) rest
    else c :: replaceFrom part new 0 rest

/-- Replaces all occurrences of a text that has characters. -/
def replaceAll (part new text : String) : String :=
  String.ofList (replaceFrom part.toList new.toList 0 text.toList)

namespace Move

def plain (move : Move) : Bool :=
  move.source.display != "" && Patch.quotable move.source.display &&
    Patch.quotable move.target.display

def Takes (move : Move) (document : Json) : Prop :=
  ∀ item, move.item = some item → ∃ id, document.item "id" = .ok id ∧ id.display = item.display

def renamed (move : Move) (key : String) : String :=
  replaceAll move.source.display move.target.display key

-- Every occurrence is replaced, one in the id of the item too.
example : renamed ⟨.str "a", .str "b", none, .null⟩ "x1|a" = "x1|b" ∧
    renamed ⟨.str "a", .str "b", none, .null⟩ "a1|a" = "b1|b" := by
  decide +kernel

end Move

/-! ### Databases -/

/-- A place in the database: documents by index and name. -/
abbrev Shelf := String → String → Option Json

variable {shelf : Shelf}

namespace Shelf

def set (shelf : Shelf) (index key : String) (document : Option Json) : Shelf :=
  fun place name => if place = index ∧ name = key then document else shelf place name

theorem set_self (shelf : Shelf) (index key : String) (document : Option Json) :
    shelf.set index key document index key = document :=
  if_pos ⟨rfl, rfl⟩

theorem set_set (shelf : Shelf) (index key : String) (first last : Option Json) :
    (shelf.set index key first).set index key last = shelf.set index key last := by
  funext place name
  unfold set
  split <;> rfl

theorem isSome_set {place name : String} (h : (shelf place name).isSome = true) (index key : String)
    (document : Json) : (shelf.set index key (some document) place name).isSome = true := by
  unfold set
  split
  · rfl
  · exact h

theorem set_get (shelf : Shelf) (index key : String) :
    shelf.set index key (shelf index key) = shelf := by
  funext place name
  unfold set
  split
  · rename_i hplace
    rw [hplace.1, hplace.2]
  · rfl

end Shelf

/-- Whether a call may put a document at a place. A move whose script does not do what it says may
do anything. -/
def Call.Writes (n : Naming) (run : Patch.Script → Json → Option Json) (shelf : Shelf)
    (index key : String) (document : Json) : Call → Prop
  | .index place id given _ =>
    index = place ∧ document = given ∧ ∀ name, id = .str name → key = name
  | .bulk _ actions _ _ => ⟨index, key, document⟩ ∈ actions
  | .update place id script =>
    index = place ∧ id = .str key ∧ ∃ old, shelf index key = some old ∧
      run script old = some document
  | .reindex move =>
    move.plain = true → index = n.items ++ move.target.display ∧
      ∃ name old, shelf (n.items ++ move.source.display) name = some old ∧ move.Takes old ∧
        key = move.renamed name ∧ old.setItem "collection" (.str move.target.display) = .ok document
  | _ => False

/-- Whether a call may put documents anywhere. -/
def Call.isWrite : Call → Bool
  | .index .. | .bulk .. | .update .. | .reindex _ => true
  | _ => false

theorem Call.isWrite_of_writes {n : Naming} {run : Patch.Script → Json → Option Json}
    {index key : String} {document : Json} {c : Call}
    (h : c.Writes n run shelf index key document) : c.isWrite = true := by
  cases c with
  | index | bulk | update | reindex => rfl
  | _ => exact h.elim

/-- A database: what it answers, and the documents it has. -/
structure Database (n : Naming) (σ : Type) where
  answer : Answering σ
  shelf : σ → Shelf
  /-- What a script makes of a document; `none` if it stops. -/
  run : Patch.Script → Json → Option Json
  /-- Nothing is found after a call but what was there, or what the call may put there. -/
  found : ∀ {s c index key document}, shelf (answer s c).2 index key = some document →
    shelf s index key = some document ∨ c.Writes n run (shelf s) index key document
  /-- A document that is there can be read. -/
  readable : ∀ {s index key document}, shelf s index key = some document →
    ∃ reply, (answer s (.get index (.str key))).1 = .value reply ∧
      reply.item "_source" = .ok document
  /-- What is read is there. -/
  read : ∀ {s index key reply document}, (answer s (.get index (.str key))).1 = .value reply →
    reply.item "_source" = .ok document → shelf s index key = some document
  /-- A script leaves alone what its operations do not touch. -/
  untouched : ∀ {ops script old document name value}, Patch.script ops = .ok script →
    (∀ op ∈ ops, op.plain = true) → (∀ op ∈ ops, ¬ op.Touches name) → run script old =
    some document → old.item name = .ok value →
      document.item name = .ok value

namespace Database

variable {n : Naming} {σ : Type}

/-- A database that does what it is told, where a `Database` may do less. -/
structure Obeys (db : Database n σ) : Prop where
  /-- A batch of documents with different places is stored as a whole. -/
  batch : ∀ {s mode refresh raise} {actions : List BulkAction},
    (actions.map fun action => (action.index, action.id)).Nodup → ∀ action ∈ actions,
      db.shelf (db.answer s (.bulk mode actions refresh raise)).2 action.index action.id =
        some action.document
  /-- A script that is run changes the document it is run on. -/
  update : ∀ {s index key script old document reply}, db.shelf s index key = some old →
    db.run script old = some document → (db.answer s (.update index (.str key) script)).1 =
      .value reply → db.shelf (db.answer s (.update index (.str key) script)).2 index key =
      some document
  /-- Reading a document changes nothing. -/
  get : ∀ s index id, db.shelf (db.answer s (.get index id)).2 = db.shelf s

end Database

end StacCatalog
