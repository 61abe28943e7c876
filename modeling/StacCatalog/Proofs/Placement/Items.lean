import Mathlib.Data.Set.Function
import StacCatalog.Api.Transactions
import StacCatalog.Proofs.Json.Access
import StacCatalog.Proofs.Placement.Database
import StacCatalog.Proofs.Program.Keeps
import StacCatalog.Proofs.Program.Operations

/-!
# Where items are, and which programs leave them there
-/

namespace StacCatalog

open Outcome Json Naming List

variable {item collection : Json} {name index source : String} {action : BulkAction}
    {items : List Json}
  {ops : List Patch.Operation}

theorem Call.isWrite_of_clearing {c : Call} (h : c.Clearing) : c.isWrite = false := by
  cases c with
  | index | bulk | update | reindex => exact h.elim
  | _ => rfl

/-- An invariant that is kept by every call that puts no documents anywhere. -/
def Quiet {σ : Type} (answer : Answering σ) (Inv : σ → Prop) : Prop :=
  ∀ c, c.isWrite = false → ∀ s, Inv s → Inv (answer s c).2

theorem Quiet.keeps {α σ : Type} {answer : Answering σ} {Inv : σ → Prop} {p : Program α}
    (h : Quiet answer Inv) (hp : p.Sends Call.Clearing) : p.Keeps answer Inv fun _ => True := by
  refine fun s hs => ⟨?_, fun _ _ => trivial⟩
  induction p generalizing s with
  | done a | fail fault => exact hs
  | call c next ih => exact ih _ (hp.2 _) _ (h c (Call.isWrite_of_clearing hp.1) s hs)

/-! ### Documents in their places -/

/-- A document lies where its own content says. Its collection is one of those in use. -/
def Addressed (n : Naming) (ids : Set String) (index key : String) (document : Json) : Prop :=
  ∃ id collection, document.item "id" = .ok id ∧ document.item "collection" =
    .ok (.str collection) ∧ collection ∈ ids ∧ index = n.aliasOf collection ∧
    key = documentId id (.str collection)

namespace Database

variable {n : Naming} {σ : Type} {db : Database n σ} {ids : Set String} {s : σ} {c : Call}

/-- All documents of items lie where their content says. -/
def Placed (db : Database n σ) (ids : Set String) (s : σ) : Prop :=
  ∀ index key document, index ≠ n.collections → db.shelf s index key = some document →
    Addressed n ids index key document

theorem Placed.answer (hs : db.Placed ids s) (hc : ∀ index key document, index ≠ n.collections →
      c.Writes n db.run (db.shelf s) index key document → Addressed n ids index key document) :
    db.Placed ids (db.answer s c).2 := by
  intro index key document hindex hfound
  rcases db.found hfound with hold | hnew
  · exact hs index key document hindex hold
  · exact hc index key document hindex hnew

theorem found_of_quiet (hc : c.isWrite = false) {key : String} {document : Json}
    (h : db.shelf (db.answer s c).2 index key = some document) :
    db.shelf s index key = some document := by
  refine (db.found h).resolve_right fun hwrites => ?_
  rw [Call.isWrite_of_writes hwrites] at hc
  cases hc

theorem placed_quiet : Quiet db.answer (db.Placed ids) :=
  fun _ hc _ hs index key document hindex h => hs index key document hindex (found_of_quiet hc h)

end Database

namespace Naming

/-- No index of items has the name of the index of collections. -/
def Apart (n : Naming) : Prop :=
  ∀ text, n.items ++ text ≠ n.collections

theorem apart_standard : standard.Apart := by
  intro text h
  have hhead := congrArg (fun name => name.toList.head?) h
  simp [standard] at hhead

theorem clean_clean (text : String) : clean (clean text) = clean text := by
  simp [clean, filter_filter]

end Naming

namespace Item

/-- An item is stored with its links resolved, and with its properties stamped; the rest of it is
kept. -/
theorem of_toStored {library : Library} {now : Time.Moment} {stored : Json}
    (h : toStored library now item = .ok stored) :
    ∃ links copies time properties stamped, library.resolveLinks links = .ok copies ∧
      item.item "properties" = .ok properties ∧ stampProperties time properties = .ok stamped ∧
        ∀ name, stored.item name = if name = "properties" then .ok stamped
          else if name = "links" then .ok (.arr copies) else item.item name := by
  obtain ⟨links, -, h⟩ := bind_eq_ok.mp h
  obtain ⟨copies, hcopies, h⟩ := bind_eq_ok.mp h
  obtain ⟨linked, hlinked, h⟩ := bind_eq_ok.mp h
  obtain ⟨time, -, h⟩ := bind_eq_ok.mp h
  obtain ⟨properties, hproperties, h⟩ := bind_eq_ok.mp h
  obtain ⟨stamped, hstamped, h⟩ := bind_eq_ok.mp h
  rw [item_setItem hlinked, if_neg (by decide)] at hproperties
  refine ⟨links, copies, time, properties, stamped, hcopies, hproperties, hstamped, fun name => ?_⟩
  rw [item_setItem h, item_setItem hlinked]

theorem toStored_item {library : Library} {now : Time.Moment} {stored : Json}
    (h : toStored library now item = .ok stored) (hlinks : name ≠ "links")
    (hproperties : name ≠ "properties") : stored.item name = item.item name := by
  obtain ⟨_, _, _, _, _, -, -, -, hitem⟩ := of_toStored h
  rw [hitem, if_neg hproperties, if_neg hlinks]

theorem restamped_item {now : Time.Moment} {stamped : Json}
    (h : restamped now item = .ok stamped) (hproperties : name ≠ "properties") :
    stamped.item name = item.item name := by
  obtain ⟨utc, -, h⟩ := bind_eq_ok.mp h
  obtain ⟨given, -, h⟩ := bind_eq_ok.mp h
  obtain ⟨properties, -, h⟩ := bind_eq_ok.mp h
  rw [item_setItem h, if_neg hproperties]

end Item

theorem Collection.toStored_item {library : Library} {body stored : Json}
    (h : toStored library body = .ok stored) (hlinks : name ≠ "links") :
    stored.item name = body.item name := by
  obtain ⟨given, -, h⟩ := bind_eq_ok.mp h
  obtain ⟨links, -, h⟩ := bind_eq_ok.mp h
  rw [item_setItem h, if_neg hlinks]

/-- The collection of an item, if it is a text, is one of those in use. -/
def InUse (ids : Set String) (item : Json) : Prop :=
  ∀ collection, item.item "collection" = .ok (.str collection) → collection ∈ ids

namespace Items

open Program Database

variable {n : Naming} {σ : Type} {db : Database n σ} {ids : Set String} {ctx : Context}

theorem placed_exists (index : String) (id : Json) (s : σ) (hs : db.Placed ids s) :
    db.Placed ids (db.answer s (.exists index id)).2 :=
  placed_quiet _ rfl s hs

theorem keeps_delete (collection item : Json) (refresh : Option Json) :
    Keeps db.answer (db.Placed ids) (delete ctx collection item refresh) fun _ => True :=
  placed_quiet.keeps (clears_deleteItem collection item refresh)

/-! ### Creating -/

section Checks

-- What is asked before an item is written: any invariant that asking keeps is kept.
variable {answer : Answering σ} {Inv : σ → Prop}

theorem keeps_checkCollection (hexists : ∀ index id s, Inv s → Inv (answer s (.exists index id)).2)
    (collection : Json) : Keeps answer Inv (checkCollection ctx collection) fun _ => True := by
  refine (Keeps.perform (hexists _ _) fun _ _ _ _ => trivial).bind fun found (_ : True) => ?_
  split
  · exact .fail _
  · exact .pure trivial

theorem keeps_taken (hexists : ∀ index id s, Inv s → Inv (answer s (.exists index id)).2)
    (item : Json) : Keeps answer Inv (taken ctx item) fun _ => True := by
  refine .liftM_bind fun collection _ => .liftM_bind fun index _ => .liftM_bind fun name _ => ?_
  exact (Keeps.perform (hexists _ _) fun _ _ _ _ => trivial).bind fun found (_ : True) =>
    .pure trivial

theorem keeps_toStored (item : Json) :
    Keeps answer Inv (liftM (Item.toStored ctx.library ctx.now item) : Program Json)
      fun stored => Item.toStored ctx.library ctx.now item = .ok stored :=
  .liftM fun _ h => h

theorem keeps_prepare (hexists : ∀ index id s, Inv s → Inv (answer s (.exists index id)).2)
    (item : Json) (existOk : Bool) :
    Keeps answer Inv (prepare ctx item existOk)
      fun stored => Item.toStored ctx.library ctx.now item = .ok stored := by
  refine .liftM_bind fun collection _ => (keeps_checkCollection hexists collection).bind fun _ _ =>
    ?_
  split
  · refine (keeps_taken hexists item).bind fun found _ => ?_
    split
    · exact .liftM_bind fun _ _ => .liftM_bind fun _ _ => .fail _
    · exact keeps_toStored item
  · exact keeps_toStored item

end Checks

theorem keeps_prepareForBatch (item : Json) (existOk : Bool) :
    Keeps db.answer (db.Placed ids) (prepareForBatch ctx item existOk) fun stored =>
      Item.toStored ctx.library ctx.now item = .ok stored := by
  refine .liftM_bind fun name _ => .liftM_bind fun collection _ =>
    (keeps_checkCollection placed_exists collection).bind fun _ _ => ?_
  split
  · refine (keeps_taken placed_exists item).bind fun found _ => ?_
    split
    · split
      · exact .fail _
      · exact keeps_toStored item
    · exact keeps_toStored item
  · exact keeps_toStored item

theorem aliasFor_eq_ok (hctx : ctx.naming = n) (h : ctx.aliasFor collection = .ok index) :
    ∃ text, collection = .str text ∧ index = n.aliasOf text := by
  subst hctx
  cases collection with
  | str text =>
    cases h
    exact ⟨text, rfl, rfl⟩
  | _ => cases h

theorem keeps_create (hctx : ctx.naming = n) (hitem : InUse ids item) (existOk : Bool)
    (refresh : Option Json) :
    Keeps db.answer (db.Placed ids) (create ctx item existOk refresh) fun _ => True := by
  refine .liftM_bind fun name hname => .liftM_bind fun collection hcollection =>
    .liftM_bind fun refresh _ =>
      (keeps_prepare placed_exists item existOk).bind fun stored hstored =>
    .liftM_bind fun index hindex => .bind (.tell fun s hs => hs.answer ?_) fun _ _ => .pure trivial
  rintro place key document - ⟨rfl, rfl, hkey⟩
  obtain ⟨text, rfl, rfl⟩ := aliasFor_eq_ok hctx hindex
  refine ⟨name, text, ?_, ?_, hitem text hcollection, rfl, hkey _ rfl⟩
  · rw [Item.toStored_item hstored (by decide) (by decide), hname]
  · rw [Item.toStored_item hstored (by decide) (by decide), hcollection]

/-! ### Batches -/

/-- An item whose collection has a given alias. -/
def Belongs (n : Naming) (ids : Set String) (index : String) (item : Json) : Prop :=
  ∃ collection ∈ ids, item.item "collection" = .ok (.str collection) ∧ n.aliasOf collection = index

theorem action_eq_ok (h : Items.action index item = .ok action) :
    ∃ id collection, item.item "id" = .ok id ∧ item.item "collection" = .ok collection ∧
      action = ⟨index, documentId id collection, item⟩ := by
  obtain ⟨id, hid, h⟩ := bind_eq_ok.mp h
  obtain ⟨collection, hcollection, h⟩ := bind_eq_ok.mp h
  cases h
  exact ⟨id, collection, hid, hcollection, rfl⟩

/-- An item of a batch is put where its content says exactly if it belongs to the batch's
collection. -/
theorem addressed_action_iff (h : Items.action index item = .ok action) :
    Addressed n ids action.index action.id action.document ↔ Belongs n ids index item := by
  obtain ⟨id, collection, hid, hcollection, rfl⟩ := action_eq_ok h
  constructor
  · rintro ⟨name, text, hname, htext, hmem, hindex, -⟩
    exact ⟨text, hmem, htext, hindex.symm⟩
  · rintro ⟨text, hmem, htext, rfl⟩
    rw [hcollection, Except.ok.injEq] at htext
    subst htext
    exact ⟨id, text, hid, hcollection, hmem, rfl, rfl⟩

theorem actions_eq_ok {acts : List BulkAction}
    (h : actions ctx collection (.arr items) = .ok acts) :
    ∃ index, ctx.aliasFor collection = .ok index ∧
      List.Forall₂ (fun item action => Items.action index item = .ok action) items acts := by
  obtain ⟨index, hindex, h⟩ := bind_eq_ok.mp h
  exact ⟨index, hindex, mapM_eq_ok.mp h⟩

theorem keeps_bulk {mode : BulkMode} {refresh : Option Json}
    (h : ∀ index, ctx.aliasFor collection = .ok index → ∀ item ∈ items, Belongs n ids index item) :
    Keeps db.answer (db.Placed ids) (bulk ctx mode collection (.arr items) refresh)
      fun _ => True := by
  refine .liftM_bind fun refresh _ => ?_
  split
  · exact .pure trivial
  · refine .liftM_bind fun acts hacts => ?_
    obtain ⟨index, hindex, hall⟩ := actions_eq_ok hacts
    have hwrites : ∀ action ∈ acts, Addressed n ids action.index action.id action.document := by
      intro action haction
      obtain ⟨item, hitem, haction⟩ := exists_left_of_forall₂ hall haction
      exact (addressed_action_iff haction).mpr (h index hindex item hitem)
    have hbulk : Keeps db.answer (db.Placed ids)
        (perform (.bulk mode acts refresh ctx.raiseOnBulkError)) fun _ => True :=
      .perform (fun s hs => hs.answer fun _ _ _ _ => hwrites _) fun _ _ _ _ => trivial
    refine hbulk.bind fun reply _ => .liftM_bind fun pair _ => ?_
    dsimp only
    split
    · exact .liftM_bind fun _ _ => .pure trivial
    · exact .pure trivial

/-! ### Patches -/

/-- Whether an operation says where an item is to be, and not what it is. -/
def relocates (op : Patch.Operation) : Bool :=
  sets op && (op.path == "collection" || op.path == "id")

/-- An operation whose script leaves the place of an item alone. -/
def Local (op : Patch.Operation) : Prop :=
  op.plain = true ∧ ¬ op.Touches "id" ∧ ¬ op.Touches "collection"

/-- A move that puts an item where its new content says: into the alias of its new collection, under
the name that belongs there. -/
structure Lands (n : Naming) (ids : Set String) (move : Move) (item : Json) : Prop where
  plain : move.plain = true
  inUse : move.target.display ∈ ids
  clean : clean move.target.display = move.target.display
  renamed : move.renamed (documentId item move.source) = documentId item move.target

/-- A patch that leaves an item where its content says. -/
structure Orderly (n : Naming) (ids : Set String) (collection item : Json)
    (ops : List Patch.Operation) : Prop where
  inUse : ∃ text ∈ ids, collection = .str text
  content : ∀ op ∈ ops, relocates op = false → Local op
  moves : ∀ op ∈ ops, sets op = true → op.path = "collection" → collection.same op.value = false →
    Lands n ids ⟨collection, op.value, some item, .bool true⟩ item

/-- The last value that operations set a member to, apart from the value it has. -/
def lastSet (path : String) (old : Json) (ops : List Patch.Operation) (start : Json) : Json :=
  ((ops.filter fun op => sets op && op.path == path && !old.same op.value).map
    Patch.Operation.value).getLastD start

/-- Where operations move an item. -/
def Relocation.through (collection item : Json) (ops : List Patch.Operation) (r : Relocation) :
    Relocation where
  collection := lastSet "collection" collection ops r.collection
  item := lastSet "id" item ops r.item
  content := r.content ++ ops.filter fun op => !relocates op

/-- Whether an operation sets a member to another value than it has. -/
def changes (path : String) (old : Json) (op : Patch.Operation) : Bool :=
  sets op && op.path == path && !old.same op.value

/-- What one operation does to the place and to the content of an item. -/
def Relocation.after (collection item : Json) (op : Patch.Operation) (r : Relocation) :
    Relocation where
  collection := if changes "collection" collection op then op.value else r.collection
  item := if changes "id" item op then op.value else r.item
  content := if relocates op then r.content else r.content ++ [op]

theorem Relocation.through_cons (collection item : Json) (op : Patch.Operation)
    (rest : List Patch.Operation) (r : Relocation) :
    r.through collection item (op :: rest) =
      (r.after collection item op).through collection item rest := by
  have hlast (path old start) : lastSet path old (op :: rest) start =
      lastSet path old rest (if changes path old op then op.value else start) := by
    unfold lastSet changes
    rw [filter_cons]
    split
    · rw [map_cons, getLastD_cons]
    · rfl
  simp only [through, after, hlast, filter_cons, Relocation.mk.injEq]
  cases relocates op <;> simp

theorem relocation_cons (collection item : Json) (op : Patch.Operation)
    (rest : List Patch.Operation) (r : Relocation) :
    relocation ctx collection item r (op :: rest) =
      (if changes "collection" collection op then checkCollection ctx op.value else pure ()) >>=
      fun _ => relocation ctx collection item (r.after collection item op) rest := by
  rw [relocation, Relocation.after, relocates]
  unfold changes
  cases hrelocates : sets op && (op.path == "collection" || op.path == "id") with
  | false =>
    have hsets :
        ∀ path, path = "collection" ∨ path = "id" → (sets op && op.path == path) = false := by
      rintro path (rfl | rfl) <;> grind
    simp only [hsets _ (.inl rfl), hsets _ (.inr rfl), Bool.false_and, Bool.false_eq_true, if_false]
    rfl
  | true =>
    have hsets : sets op = true := (Bool.and_eq_true_iff.mp hrelocates).1
    have hitem (r : Relocation) :
          (if op.path == "id" && !item.same op.value then { r with item := op.value } else r) =
        { r with item := if op.path == "id" && !item.same op.value then op.value else r.item } := by
      split <;> rfl
    simp only [hsets, Bool.true_and, if_true, hitem]
    split <;> rfl

theorem keeps_through {answer : Answering σ} {Inv : σ → Prop}
    (hexists : ∀ index id s, Inv s → Inv (answer s (.exists index id)).2) (collection item : Json)
    (ops : List Patch.Operation) (r : Relocation) :
    Keeps answer Inv (relocation ctx collection item r ops)
      (· = r.through collection item ops) := by
  induction ops generalizing r with
  | nil => exact .pure (by simp [Relocation.through, lastSet])
  | cons op rest ih =>
    rw [relocation_cons, Relocation.through_cons]
    have hcheck : Keeps answer Inv
        (if changes "collection" collection op then checkCollection ctx op.value else pure ())
        fun _ => True := by
      split
      · exact keeps_checkCollection hexists op.value
      · exact .pure trivial
    exact hcheck.bind fun _ _ => ih _

theorem exists_of_lastSet {path : String} {old : Json}
    (h : (lastSet path old ops .null).truthy = true) :
    ∃ op ∈ ops, changes path old op = true ∧ lastSet path old ops .null = op.value := by
  have hmem : lastSet path old ops .null ∈
      .null :: (ops.filter (changes path old)).map Patch.Operation.value :=
    getLastD_mem_cons
  rcases mem_cons.mp hmem with hnull | hvalue
  · rw [hnull] at h
    cases h
  · obtain ⟨op, hop, hvalue⟩ := mem_map.mp hvalue
    obtain ⟨hop, hchanges⟩ := mem_filter.mp hop
    exact ⟨op, hop, hchanges, hvalue.symm⟩

theorem keeps_update {script : Patch.Script} (hscript : Patch.script ops = .ok script)
    (hops : ∀ op ∈ ops, Local op) (index : String) (key : Json) :
    Keeps db.answer (db.Placed ids) (tell (.update index key script)) fun _ => True := by
  have hplain : ∀ op ∈ ops, op.plain = true := fun op h => (hops op h).1
  have hid : ∀ op ∈ ops, ¬ op.Touches "id" := fun op h => (hops op h).2.1
  have hcollection : ∀ op ∈ ops, ¬ op.Touches "collection" := fun op h => (hops op h).2.2
  refine .tell fun s hs => hs.answer ?_
  rintro place name document hplace ⟨rfl, -, old, hold, hrun⟩
  obtain ⟨id, text, hidOld, htextOld, hmem, hindex, hname⟩ := hs place name old hplace hold
  exact ⟨id, text, db.untouched hscript hplain hid hrun hidOld,
    db.untouched hscript hplain hcollection hrun htextOld, hmem, hindex, hname⟩

theorem keeps_find (hctx : ctx.naming = n) (hapart : n.Apart) (collection item : Json) :
    Keeps db.answer (db.Placed ids) (find ctx collection item) (InUse ids) := by
  refine .liftM_bind fun index hindex => ?_
  obtain ⟨text, rfl, rfl⟩ := aliasFor_eq_ok hctx hindex
  have hget : Keeps db.answer (db.Placed ids)
      (perform (.get (n.aliasOf text) (Context.documentId item (.str text)))) fun reply =>
        ∀ document, reply.item "_source" = .ok document → InUse ids document := by
    refine .perform (placed_quiet _ rfl) ?_
    intro s reply hs hreply document hdocument collection hcollection
    obtain ⟨-, text', -, htext', hmem, -⟩ := hs _ _ _ (hapart _) (db.read hreply hdocument)
    rw [htext', Except.ok.injEq, str.injEq] at hcollection
    exact hcollection ▸ hmem
  exact hget.orMissing.bind fun reply hreply => .liftM hreply

theorem keeps_reindex (hapart : n.Apart) (hids : Set.InjOn n.aliasOf ids) (hsource : source ∈ ids)
    {target refresh : Json} (hlands : Lands n ids ⟨.str source, target, some item, refresh⟩ item) :
    Keeps db.answer (db.Placed ids) (tell (.reindex ⟨.str source, target, some item, refresh⟩))
      fun _ => True := by
  refine .tell fun s hs => hs.answer ?_
  intro index key document hindex hwrites
  obtain ⟨rfl, name, old, hold, htakes, rfl, hset⟩ := hwrites hlands.plain
  obtain ⟨id, text, hid, htext, hmem, hfrom, rfl⟩ := hs _ _ _ (hapart _) hold
  obtain ⟨id', hid', hdisplay⟩ := htakes item rfl
  obtain rfl : id = id' := by rwa [hid, Except.ok.injEq] at hid'
  -- The index is the alias of the collection that the move names, and no other collection in use
  -- has that alias.
  have hclean : clean text = source := ((String.append_right_inj n.items).mp hfrom).symm
  obtain rfl : text = source := hids hmem hsource (by rw [aliasOf, aliasOf, ← hclean, clean_clean])
  -- Only the text of the item's id goes into names, so the item asked for and the one found share
  -- theirs.
  have hname (collection) : documentId id collection = documentId item collection := by
    rw [documentId, documentId, hdisplay]
  refine ⟨id, target.display, ?_, ?_, hlands.inUse, ?_, ?_⟩
  · rw [item_setItem hset, if_neg (by decide), hid]
  · rw [item_setItem hset, if_pos rfl]
  · rw [aliasOf, hlands.clean]
  · rw [hname, hname]
    exact hlands.renamed

theorem keeps_moveTo (hapart : n.Apart) (hids : Set.InjOn n.aliasOf ids) (hsource : source ∈ ids)
    {target : Json} (hlands : Lands n ids ⟨.str source, target, some item, .bool true⟩ item)
    (document refresh : Json) :
    Keeps db.answer (db.Placed ids) (moveTo ctx (.str source) item target document refresh)
      (InUse ids) := by
  refine (keeps_reindex hapart hids hsource hlands).bind fun _ _ =>
    (keeps_delete _ _ _).bind fun _ _ =>
    .liftM fun moved hmoved collection hcollection => ?_
  rw [item_setItem hmoved, if_pos rfl, Except.ok.injEq] at hcollection
  have hmem := hlands.inUse
  rwa [hcollection] at hmem

theorem keeps_rename (hctx : ctx.naming = n) {document : Json} (hdocument : InUse ids document)
    (collection item new refresh : Json) :
    Keeps db.answer (db.Placed ids) (rename ctx collection item new document refresh)
      fun _ => True := by
  refine .liftM_bind fun renamed hrenamed => (keeps_prepare placed_exists renamed false).bind
    fun prepared hprepared => ?_
  have hinUse : InUse ids prepared := by
    intro text htext
    rw [Item.toStored_item hprepared (by decide) (by decide), item_setItem hrenamed,
      if_neg (by decide)] at htext
    exact hdocument text htext
  exact (keeps_create hctx hinUse _ _).bind fun _ _ => (keeps_delete _ _ _).bind fun _ _ =>
    .pure trivial

theorem keeps_patch (hctx : ctx.naming = n) (hapart : n.Apart) (hids : Set.InjOn n.aliasOf ids)
    (hops : Orderly n ids collection item ops) (refresh : Json) :
    Keeps db.answer (db.Placed ids) (patch ctx collection item ops refresh) fun _ => True := by
  obtain ⟨source, hsource, rfl⟩ := hops.inUse
  refine (keeps_through placed_exists _ item ops {}).bind fun r hr => ?_
  have hcontent : ∀ op ∈ r.content, Local op := by
    intro op hop
    rw [hr] at hop
    obtain ⟨hop, hno⟩ := mem_filter.mp hop
    exact hops.content op hop (by simpa using hno)
  have hlands (hmoves : r.collection.truthy = true) :
      Lands n ids ⟨.str source, r.collection, some item, .bool true⟩ item := by
    rw [hr] at hmoves ⊢
    obtain ⟨op, hop, hchanges, hvalue⟩ := exists_of_lastSet hmoves
    simp only [changes, Bool.and_eq_true, beq_iff_eq, Bool.not_eq_true'] at hchanges
    simp only [Relocation.through, hvalue]
    exact hops.moves op hop hchanges.1.1 hchanges.1.2 hchanges.2
  refine .liftM_bind fun script hscript => .liftM_bind fun index _ =>
    (keeps_update hscript hcontent _ _).orRefused.bind fun _ _ =>
    (keeps_find hctx hapart _ _).bind fun document hdocument => ?_
  have hlast : ∀ collection document, InUse ids document → Keeps db.answer (db.Placed ids)
      (if r.item.truthy then rename ctx collection item r.item document refresh else pure document)
      fun _ => True := by
    intro collection document hdocument
    split
    · exact keeps_rename hctx hdocument _ _ _ _
    · exact .pure trivial
  unfold settle
  dsimp only
  split
  · rename_i hmoves
    exact (keeps_moveTo hapart hids hsource (hlands hmoves) _ _).bind fun moved hmoved =>
      hlast _ moved hmoved
  · exact hlast _ document hdocument

end Items

end StacCatalog
