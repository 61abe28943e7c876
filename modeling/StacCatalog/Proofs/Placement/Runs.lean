import StacCatalog.Library.Plain
import StacCatalog.Proofs.Placement.Memory
import StacCatalog.Proofs.Placement.Transactions

/-!
# Runs of transactions, and the transactions that lead items astray
-/

namespace StacCatalog

open Program Database Items Transactions List

variable {n : Naming} {σ : Type} {db : Database n σ} {ids : Set String} {ctx : Context} {s s' : σ}
  {collection result : Json} {items : List Json} {t : Transaction} {ops : List Patch.Operation}

/-! ### Runs -/

def Database.runAll (db : Database n σ) (requests : List (Context × Transaction)) (s : σ) : σ :=
  requests.foldl (fun s request => ((request.2.program request.1).run db.answer s).2) s

theorem placed_runAll (hapart : n.Apart) (hids : Set.InjOn n.aliasOf ids)
    {requests : List (Context × Transaction)}
    (h : ∀ request ∈ requests, request.1.naming = n ∧ request.2.Orderly n ids)
    (hs : db.Placed ids s) : db.Placed ids (db.runAll requests s) := by
  induction requests generalizing s with
  | nil => exact hs
  | cons request rest ih =>
    obtain ⟨hctx, horderly⟩ := h request mem_cons_self
    have hstep := (keeps_program hctx hapart hids horderly s hs).1
    exact ih (fun request hrequest => h request (mem_cons_of_mem _ hrequest)) hstep

/-- Every document of a collection in use is of that collection, has the name that its id makes, and
is found by it. -/
def Database.Found (db : Database n σ) (ids : Set String) (s : σ) : Prop :=
  ∀ collection ∈ ids, ∀ key document, db.shelf s (n.aliasOf collection) key = some document →
    ∃ id, document.item "id" = .ok id ∧ document.item "collection" = .ok (.str collection) ∧
      key = Naming.documentId id (.str collection) ∧
      ∀ ctx : Context, ctx.naming = n →
        ((find ctx (.str collection) id).run db.answer s).1 = .ok document

theorem run_find (hctx : ctx.naming = n) {collection : String} {id document : Json}
    (h : db.shelf s (n.aliasOf collection) (Naming.documentId id (.str collection)) =
      some document) : ((find ctx (.str collection) id).run db.answer s).1 = .ok document := by
  subst hctx
  obtain ⟨reply, hreply, hsource⟩ := db.readable h
  have hget : (perform
      (.get (ctx.naming.aliasOf collection) (Context.documentId id (.str collection)))).run
      db.answer s = (.ok reply, _) := run_perform_eq_ok.mpr ⟨hreply, rfl⟩
  have halias : (liftM (ctx.aliasFor (.str collection)) : Program String).run db.answer s =
      (.ok (ctx.naming.aliasOf collection), s) := run_liftM _
  unfold find
  rw [run_bind_ok halias, run_bind_ok (run_orMissing_eq_ok.mpr hget), run_liftM, hsource]

theorem found_of_placed (hapart : n.Apart) (hids : Set.InjOn n.aliasOf ids) (hs : db.Placed ids s) :
    db.Found ids s := by
  intro collection hmem key document hdocument
  obtain ⟨id, text, hid, htext, hmem', hindex, rfl⟩ := hs _ key document (hapart _) hdocument
  obtain rfl : collection = text := hids hmem hmem' hindex
  exact ⟨id, hid, htext, rfl, fun ctx hctx => run_find hctx hdocument⟩

/-! ### Batches, exactly -/

def Items.keyOf (item : Json) : String :=
  Naming.documentId (item.field "id") (item.field "collection")

section Calls

variable {answer : Answering σ} {Inv : σ → Prop} {Post : Json → Json → Prop}

theorem run_bulk_eq_ok {mode : BulkMode} {refresh : Option Json} {reply : Json × Json}
    (hitems : items ≠ [])
    (h : (bulk ctx mode collection (.arr items) refresh).run answer s = (.ok reply, s')) :
    ∃ acts refresh value, actions ctx collection (.arr items) = .ok acts ∧
      answer s (.bulk mode acts refresh ctx.raiseOnBulkError) = (.value value, s') ∧
      value.pair = .ok reply := by
  obtain ⟨item, rest, rfl⟩ := exists_cons_of_ne_nil hitems
  obtain ⟨refresh, -, h⟩ := run_liftM_bind_eq_ok.mp h
  obtain ⟨acts, hacts, h⟩ := run_liftM_bind_eq_ok.mp h
  obtain ⟨value, u, hbulk, h⟩ := run_bind_eq_ok.mp h
  obtain ⟨hvalue, rfl⟩ := run_perform_eq_ok.mp hbulk
  obtain ⟨pair, hpair, h⟩ := run_liftM_bind_eq_ok.mp h
  -- What is left looks at the reply only.
  have hend : pair = reply ∧ (answer s (.bulk mode acts refresh ctx.raiseOnBulkError)).2 = s' := by
    dsimp only at h
    split at h
    · obtain ⟨size, -, h⟩ := run_liftM_bind_eq_ok.mp h
      exact ⟨Except.ok.inj (Prod.mk.inj h).1, (Prod.mk.inj h).2⟩
    · exact ⟨Except.ok.inj (Prod.mk.inj h).1, (Prod.mk.inj h).2⟩
  obtain ⟨rfl, rfl⟩ := hend
  exact ⟨acts, refresh, value, hacts, Prod.ext hvalue rfl, hpair⟩

/-- A batch that succeeds has made its items ready, has stored them, and tells how many it stored.
-/
theorem run_batch_eq_ok
    (hitem : ∀ item, Keeps answer Inv (prepareForBatch ctx item (t.method = .upsert)) (Post item))
    (hpost : ∀ item stored, Post item stored → Item.toStored ctx.library ctx.now item = .ok stored)
    (hbatch : t.batch? = some (collection, items)) (hs : Inv s)
    (h : (t.program ctx).run answer s = (.ok result, s')) :
    ∃ mode refresh prepared reply u verb, Inv u ∧ List.Forall₂ Post items prepared ∧
      (bulk ctx mode collection (.arr prepared) refresh).run answer u = (.ok reply, s') ∧
      report verb prepared.length reply.1 = .ok result := by
  cases t with
  | createItem place item baseUrl refresh =>
    obtain ⟨type, htype, h⟩ := run_liftM_bind_eq_ok.mp h
    rw [← Json.field_of_item htype] at h
    split at h
    · rename_i hfeature
      obtain ⟨value, hvalue, h⟩ := run_liftM_bind_eq_ok.mp h
      obtain ⟨features, hfeatures, h⟩ := run_liftM_bind_eq_ok.mp h
      rw [batch?_features hfeature hvalue hfeatures, Option.some.injEq, Prod.mk.injEq] at hbatch
      obtain ⟨rfl, rfl⟩ := hbatch
      obtain ⟨prepared, u, hprepare, h⟩ := run_bind_eq_ok.mp h
      obtain ⟨hu, hprepared⟩ := (keeps_prepareAll hitem features).of_run hs hprepare
      obtain ⟨reply, v, hbulk, h⟩ := run_bind_eq_ok.mp h
      obtain ⟨hreport, rfl⟩ := run_liftM_eq_ok.mp h
      exact ⟨_, _, prepared, reply, u, _, hu, hprepared, hbulk, hreport⟩
    · rename_i hsingle
      simp [Transaction.batch?, hsingle] at hbatch
  | insertBatch valid batch method refresh =>
    obtain ⟨prepared, u, hprepare, h⟩ := run_bind_eq_ok.mp h
    obtain ⟨hu, hprepared⟩ := (keeps_prepareValid hitem valid batch).of_run hs hprepare
    obtain ⟨first, hfirst, h⟩ := run_liftM_bind_eq_ok.mp h
    obtain ⟨place, hplace, h⟩ := run_liftM_bind_eq_ok.mp h
    rw [batch?_insertBatch (hprepared.imp hpost) hfirst hplace, Option.some.injEq,
      Prod.mk.injEq] at hbatch
    obtain ⟨rfl, rfl⟩ := hbatch
    obtain ⟨reply, v, hbulk, h⟩ := run_bind_eq_ok.mp h
    obtain ⟨hreport, rfl⟩ := run_liftM_eq_ok.mp h
    exact ⟨_, _, prepared, reply, u, _, hu, hprepared, hbulk, hreport⟩
  | _ => cases hbatch

end Calls

theorem place_of_action {library : Library} {now : Time.Moment} {index : String}
    {item stored : Json} {action : BulkAction}
    (hstored : Item.toStored library now item = .ok stored)
    (haction : Items.action index stored = .ok action) :
    (index, Items.keyOf item) = (action.index, action.id) := by
  obtain ⟨id, collection, hid, hcollection, rfl⟩ := action_eq_ok haction
  rw [Item.toStored_item hstored (by decide) (by decide)] at hid hcollection
  rw [Items.keyOf, Json.field_of_item hid, Json.field_of_item hcollection]

/-- **Batches.** On a database that does what it is told, a batch of items with different names
leaves items in place exactly if all its items belong to the collection it goes to. -/
theorem placed_batch_iff (hobeys : db.Obeys) (hctx : ctx.naming = n) (hapart : n.Apart)
    (hids : Set.InjOn n.aliasOf ids) (hbatch : t.batch? = some (collection, items))
    (hnames : (items.map Items.keyOf).Nodup) (hs : db.Placed ids s)
    (h : (t.program ctx).run db.answer s = (.ok result, s')) :
    db.Placed ids s' ↔ t.Orderly n ids := by
  constructor
  · intro hplaced
    obtain ⟨mode, refresh, prepared, reply, u, -, hu, hprepared, hbulk, -⟩ :=
      run_batch_eq_ok (keeps_prepareForBatch · _) (fun _ _ h => h) hbatch hs h
    refine (orderly_batch hbatch).mpr fun index hindex item hitem => ?_
    obtain ⟨stored, hmem, hstored⟩ := exists_right_of_forall₂ hprepared hitem
    obtain ⟨acts, refresh, value, hacts, hanswer, -⟩ := run_bulk_eq_ok (ne_nil_of_mem hmem) hbulk
    obtain rfl : (db.answer u _).2 = s' := congrArg Prod.snd hanswer
    obtain ⟨index', hindex', hall⟩ := actions_eq_ok hacts
    obtain rfl : index = index' := by
      rw [Context.aliasFor, hctx, hindex, Except.ok.injEq] at hindex'
      exact hindex'
    obtain ⟨text, -, rfl⟩ := aliasFor_eq_ok hctx hindex'
    -- The items have different names, so the batch is stored as a whole.
    have hpairs : List.Forall₂
        (fun item action => (n.aliasOf text, Items.keyOf item) = (action.index, action.id)) items
        acts :=
      forall₂_through hprepared hall fun _ _ _ => place_of_action
    have hnodup : (acts.map fun action => (action.index, action.id)).Nodup := by
      rw [← map_eq_of_forall₂ (fun _ _ => id) hpairs]
      simpa [Function.comp_def] using hnames.map (Prod.mk_right_injective (n.aliasOf text))
    -- So the document of this item is found, and being in place it belongs there.
    obtain ⟨action, haction, hof⟩ := exists_right_of_forall₂ hall hmem
    have hindex : action.index ≠ n.collections := by
      obtain ⟨id, collection, -, -, rfl⟩ := action_eq_ok hof
      exact hapart _
    have haddressed := hplaced _ _ _ hindex (hobeys.batch hnodup action haction)
    exact (belongs_toStored hstored).mp ((addressed_action_iff hof).mp haddressed)
  · intro horderly
    exact ((keeps_program hctx hapart hids horderly).of_run hs h).1

/-! ### Patches of the content, exactly -/

theorem relocation_content {item : Json} (h : ∀ op ∈ ops, relocates op = false) (r : Relocation) :
    relocation ctx collection item r ops = .done { r with content := r.content ++ ops } := by
  induction ops generalizing r with
  | nil => simp [relocation]
  | cons op rest ih =>
    have hop : ¬ (sets op && (op.path == "collection" || op.path == "id")) = true := by
      simpa [relocates] using h op mem_cons_self
    rw [relocation, if_neg hop, ih fun op hop => h op (mem_cons_of_mem _ hop)]
    simp

theorem run_patch_eq_ok (hctx : ctx.naming = n) {text : String} {item refresh : Json}
    {script : Patch.Script} (hops : ∀ op ∈ ops, relocates op = false)
    (hscript : Patch.script ops = .ok script)
    (h : (patch ctx (.str text) item ops refresh).run db.answer s = (.ok result, s')) :
    ∃ u reply id,
      (db.answer s (.update (n.aliasOf text) (Context.documentId item (.str text)) script)) =
        (.value reply, u) ∧
      s' = (db.answer u (.get (n.aliasOf text) id)).2 := by
  subst hctx
  unfold patch at h
  rw [relocation_content hops] at h
  obtain ⟨script', hscript', h⟩ := run_liftM_bind_eq_ok.mp h
  obtain rfl : script = script' := Except.ok.inj (hscript.symm.trans hscript')
  obtain ⟨index, ⟨⟩, h⟩ := run_liftM_bind_eq_ok.mp h
  obtain ⟨_, u, hupdate, h⟩ := run_bind_eq_ok.mp h
  obtain ⟨reply, hreply, rfl⟩ := run_tell_eq_ok.mp (run_orRefused_eq_ok.mp hupdate)
  obtain ⟨document, w, hfind, h⟩ := run_bind_eq_ok.mp h
  obtain ⟨-, rfl⟩ := Prod.mk.inj h
  obtain ⟨index, ⟨⟩, hfind⟩ := run_liftM_bind_eq_ok.mp hfind
  obtain ⟨found, w, hget, hfind⟩ := run_bind_eq_ok.mp hfind
  obtain ⟨-, rfl⟩ := run_perform_eq_ok.mp (run_orMissing_eq_ok.mp hget)
  obtain ⟨-, rfl⟩ := run_liftM_eq_ok.mp hfind
  exact ⟨_, reply, _, Prod.ext hreply rfl, rfl⟩

/-- A patch of the content by which the document at a place is to become another one. -/
inductive Transaction.Rewrites (db : Database n σ) (s : σ) :
    Transaction → String → String → Json → Prop
  | intro {text : String} {item old new : Json} {body : PatchBody} {request : Request}
      {ops : List Patch.Operation}
      {script : Patch.Script} :
      operationsOf body (Fields.getD request.headers "content-type") = some ops →
      (∀ op ∈ ops, relocates op = false) → Patch.script ops = .ok script →
      db.shelf s (n.aliasOf text) (Naming.documentId item (.str text)) = some old →
        db.run script old = some new →
      Rewrites db s (.patchItem (.str text) item body request) (n.aliasOf text)
        (Naming.documentId item (.str text)) new

/-- **Patches of the content.** On a database that does what it is told, such a patch leaves items
in place exactly if the new document says the place it lies at. -/
theorem placed_rewrite_iff (hobeys : db.Obeys) (hctx : ctx.naming = n) (hapart : n.Apart)
    {index key : String} {new : Json} (hrewrites : t.Rewrites db s index key new)
    (hs : db.Placed ids s) (h : (t.program ctx).run db.answer s = (.ok result, s')) :
    db.Placed ids s' ↔ Addressed n ids index key new := by
  obtain ⟨hbody, hops, hscript, hold, hnew⟩ := hrewrites
  rename_i text item old body request ops script
  have hpatch : ∃ patched,
      (patch ctx (.str text) item ops (.bool true)).run db.answer s = (.ok patched, s') := by
    change (patchItem ctx (.str text) item body request).run db.answer s = _ at h
    unfold patchItem at h
    rw [hbody] at h
    obtain ⟨patched, u, hpatch, h⟩ := run_bind_eq_ok.mp h
    split at h
    · obtain ⟨-, rfl⟩ := run_liftM_eq_ok.mp h
      exact ⟨patched, hpatch⟩
    · cases h
  obtain ⟨patched, hpatch⟩ := hpatch
  obtain ⟨u, reply, id, hanswer, rfl⟩ := run_patch_eq_ok hctx hops hscript hpatch
  have hreply := congrArg Prod.fst hanswer
  obtain rfl : _ = u := congrArg Prod.snd hanswer
  constructor
  · -- The new document is found at the old place.
    intro hplaced
    refine hplaced _ _ new (hapart _) ?_
    rw [hobeys.get]
    exact hobeys.update hold hnew hreply
  · intro haddressed
    refine placed_quiet _ rfl _ (hs.answer ?_)
    rintro place name document - ⟨rfl, hname, old', hold', hdocument⟩
    obtain rfl : _ = name := Json.str.inj hname
    rw [hold, Option.some.injEq] at hold'
    rw [← hold', hnew, Option.some.injEq] at hdocument
    rwa [← hdocument]

/-- **Items stay where their content says.** From a database in which they do, through any run of
orderly transactions, whether they succeed or fail, every document of items lies where its content
says, and is found there. A batch that succeeds leaves it so exactly if it is orderly, and a patch
of the content exactly if the new document says the place of the old one. -/
theorem found_after_transactions (db : Database n σ) (hapart : n.Apart)
    (hids : Set.InjOn n.aliasOf ids) (hs : db.Placed ids s) :
    (∀ requests : List (Context × Transaction),
      (∀ request ∈ requests, request.1.naming = n ∧ request.2.Orderly n ids) →
      db.Placed ids (db.runAll requests s) ∧ db.Found ids (db.runAll requests s)) ∧
    (db.Obeys →
      ∀ (ctx : Context) (t : Transaction) (result : Json) (s' : σ), ctx.naming = n →
        (t.program ctx).run db.answer s = (.ok result, s') →
        (∀ collection items, t.batch? = some (collection, items) → (items.map Items.keyOf).Nodup →
          (db.Placed ids s' ↔ t.Orderly n ids)) ∧
        (∀ index key new,
          t.Rewrites db s index key new → (db.Placed ids s' ↔ Addressed n ids index key new))) := by
  refine ⟨fun requests hrequests => ?_, fun hobeys ctx t result s' hctx hrun => ⟨?_, ?_⟩⟩
  · have hplaced := placed_runAll hapart hids hrequests hs
    exact ⟨hplaced, found_of_placed hapart hids hplaced⟩
  · intro collection items hbatch hnames
    exact placed_batch_iff hobeys hctx hapart hids hbatch hnames hs hrun
  · intro index key new hrewrites
    exact placed_rewrite_iff hobeys hctx hapart hrewrites hs hrun

def noon : Context :=
  ⟨.elasticsearch, .standard, [], ⟨⟨⟨2024, 5, 6⟩, 12, 0, 0, 0⟩, some 0⟩, false, [], .plain⟩

def itemOf (id collection : String) : Json :=
  .obj [("id", .str id), ("type", .str "Feature"), ("collection", .str collection),
    ("properties", .obj [])]

/-- Two collections, an item in the first, a patch of it that tests its id, and a batch of two in
the second. -/
def orderlyRequests : List Transaction :=
  [.createCollection (.obj [("id", .str "a")]) default none,
   .createCollection (.obj [("id", .str "b")]) default none,
   .createItem (.str "a") (itemOf "x" "a") "" none,
   .patchItem (.str "a") (.str "x") (.operations [.test "id" (.str "x")])
     { (default : Request) with headers := [("content-type", .str "application/json-patch+json")] },
   .insertBatch (fun _ => true) [itemOf "y" "b", itemOf "z" "b"] .insert none]

def mixedBatch : Transaction :=
  .insertBatch (fun _ => true) [itemOf "u" "a", itemOf "v" "b"] .insert none

theorem injOn_aliasOf : Set.InjOn Naming.standard.aliasOf {"a", "b"} := by
  rintro x (rfl | rfl) y (rfl | rfl) h
  · rfl
  · exact absurd h (by decide)
  · exact absurd h (by decide)
  · rfl

theorem orderly_requests : ∀ t ∈ orderlyRequests, t.Orderly .standard {"a", "b"} := by
  intro t ht
  simp only [orderlyRequests, mem_cons, not_mem_nil, or_false] at ht
  rcases ht with rfl | rfl | rfl | rfl | rfl
  · trivial
  · trivial
  · rintro collection ⟨⟩
    exact .inl rfl
  · rintro ops ⟨⟩
    refine ⟨⟨"a", .inl rfl, rfl⟩, ?_, ?_⟩
    · intro op hop _
      rw [mem_singleton.mp hop]
      exact ⟨by decide +kernel, id, id⟩
    · intro op hop hsets
      rw [mem_singleton.mp hop] at hsets
      cases hsets
  · rintro index ⟨⟩ item hitem
    simp only [mem_cons, not_mem_nil, or_false] at hitem
    rcases hitem with rfl | rfl
    · exact ⟨"b", .inr rfl, rfl, rfl⟩
    · exact ⟨"b", .inr rfl, rfl, rfl⟩

def orderlyStore : Store :=
  (Store.database .standard []).runAll (orderlyRequests.map fun t => (noon, t)) ⟨[], []⟩

/-- From an empty store, the last item of the orderly batch is found under its own id; the batch of
both collections then leads its second item astray. -/
theorem found_after_transactions_store :
    (∃ document id, orderlyStore.find? "items_b" (.str "z|b") = some document ∧
      document.item "id" = .ok id ∧
      ((Items.find noon (.str "b") id).run (Store.answer []) orderlyStore).1 = .ok document) ∧
    ¬ (Store.database .standard []).Placed {"a", "b"}
      ((mixedBatch.program noon).run (Store.answer []) orderlyStore).2 := by
  have hempty : (Store.database .standard []).Placed {"a", "b"} ⟨[], []⟩ :=
      fun _ _ _ _ h => nomatch h
  have hrequests : ∀ request ∈ orderlyRequests.map fun t => (noon, t),
      request.1.naming = .standard ∧ request.2.Orderly .standard {"a", "b"} := by
    intro request hrequest
    obtain ⟨t, ht, rfl⟩ := List.mem_map.mp hrequest
    exact ⟨rfl, orderly_requests t ht⟩
  obtain ⟨hplaced, hfound⟩ :=
    (found_after_transactions _ Naming.apart_standard injOn_aliasOf hempty).1 _ hrequests
  constructor
  · have hstored : (orderlyStore.find? "items_b" (.str "z|b")).isSome = true := by decide +kernel
    obtain ⟨document, hdocument⟩ := Option.isSome_iff_exists.mp hstored
    obtain ⟨id, hid, -, -, hfind⟩ := hfound "b" (Or.inr rfl) "z|b" document hdocument
    exact ⟨document, id, hdocument, hid, hfind noon rfl⟩
  · have hrun : (mixedBatch.program noon).run (Store.answer []) orderlyStore =
        (.ok (.str "Successfully added/updated 2 Items. 0 errors occurred."),
          ((mixedBatch.program noon).run (Store.answer []) orderlyStore).2) := by
      refine Prod.ext ?_ rfl
      decide +kernel
    have hexact := (found_after_transactions _ Naming.apart_standard injOn_aliasOf hplaced).2
      (Store.obeys_database _) noon mixedBatch _ _ rfl hrun
    rw [hexact.1 _ _ rfl (by decide +kernel)]
    intro horderly
    obtain ⟨collection, -, hcollection, halias⟩ := horderly _ rfl (itemOf "v" "b") (by simp)
    cases hcollection
    exact absurd halias (by decide)

end StacCatalog
