import StacCatalog.Proofs.Placement.Assigning
import StacCatalog.Proofs.Placement.Runs

/-!
# Collections keep the id they are stored under, through every orderly request
-/

namespace StacCatalog

open Program Database Transactions List Collections Outcome Patch.Operation

variable {id : String} {collection : Json} {ops : List Patch.Operation} {script : Patch.Script}

namespace Database

variable {n : Naming} {σ : Type} {db : Database n σ} {s : σ} {c : Call}

/-- Every collection has the id it is stored under. -/
def IdsKept (db : Database n σ) (s : σ) : Prop :=
  ∀ key document, db.shelf s n.collections key = some document → document.item "id" = .ok (.str key)

theorem IdsKept.answer (hs : db.IdsKept s)
    (hc : ∀ key document, c.Writes n db.run (db.shelf s) n.collections key document →
      document.item "id" = .ok (.str key)) : db.IdsKept (db.answer s c).2 := by
  intro key document hfound
  rcases db.found hfound with hold | hnew
  · exact hs key document hold
  · exact hc key document hnew

theorem idsKept_quiet : Quiet db.answer db.IdsKept :=
  fun _ hc _ hs key document h => hs key document (found_of_quiet hc h)

end Database

/-! ### Requests about collections -/

namespace Collections

/-- A patch that leaves a collection its id, or makes it a new one under a new id. -/
structure Orderly (id : String) (ops : List Patch.Operation) : Prop where
  content : ∀ op ∈ ops, renames (.str id) op = false → op.plain = true ∧ ¬ op.Touches "id"
  target : ∀ op ∈ ops, renames (.str id) op = true →
    ∃ new, op.value = .str new ∧ Move.plain ⟨.str id, .str new, none, .null⟩ = true

end Collections

/-- A request that changes collections. -/
inductive CollectionRequest where
  | create (collection : Json) (request : Request) (refresh : Option Json)
  | update (id : String) (collection : Json) (request : Request) (refresh : Option Json)
  | patch (id : String) (body : PatchBody) (request : Request)
  | delete (id : String) (refresh : Option Json)

namespace CollectionRequest

def program (ctx : Context) : CollectionRequest → Program Json
  | .create collection request refresh => createCollection ctx collection request refresh
  | .update id collection request refresh =>
    updateCollection ctx (.str id) collection request refresh
  | .patch id body request => patchCollection ctx (.str id) body request
  | .delete id refresh => do
    Collections.delete ctx (.str id) refresh
    return .null

/-- A request that leaves collections their ids. An id that is given is a text, and one that is
changed can stand in the script that moves the items. -/
def Orderly : CollectionRequest → Prop
  | .create collection _ _ => ∀ id, collection.item "id" = .ok id → ∃ text, id = .str text
  | .update id collection _ _ => ∀ new, collection.item "id" = .ok new →
    ∃ text, new = .str text ∧ (text ≠ id → Move.plain ⟨.str id, .str text, none, .null⟩ = true)
  | .patch id body request =>
    ∀ ops, operationsOf body (Fields.getD request.headers "content-type") = some ops →
    Collections.Orderly id ops
  | .delete _ _ => True

end CollectionRequest

namespace Collections

variable {n : Naming} {σ : Type} {db : Database n σ} {ctx : Context} {s t : σ}

theorem keeps_store (hid : collection.item "id" = .ok (.str id)) (refresh : Refresh) :
    Keeps db.answer db.IdsKept (tell (.index ctx.naming.collections (.str id) collection refresh))
      fun _ => True := by
  refine .tell fun s hs => hs.answer ?_
  rintro key document ⟨-, rfl, hkey⟩
  rw [hid, hkey id rfl]

theorem keeps_create (h : ∀ id, collection.item "id" = .ok id → ∃ text, id = .str text)
    (refresh : Option Json) :
    Keeps db.answer db.IdsKept (create ctx collection refresh) fun _ => True := by
  refine .liftM_bind fun id hid => .liftM_bind fun refresh _ =>
    .bind (idsKept_quiet.keeps (.perform trivial)) fun found _ => ?_
  obtain ⟨text, rfl⟩ := h id hid
  dsimp only
  split
  · exact .fail _
  · exact (keeps_store hid refresh).bind fun _ _ => idsKept_quiet.keeps
      (spares_createIndex _ _ _).clearing

theorem keeps_update (hapart : n.Apart)
    (h : ∀ new, collection.item "id" = .ok new →
      ∃ text, new = .str text ∧ (text ≠ id → Move.plain ⟨.str id, .str text, none, .null⟩ = true))
    (refresh : Option Json) :
    Keeps db.answer db.IdsKept (update ctx (.str id) collection refresh) fun _ => True := by
  refine .liftM_bind fun resolved _ =>
    (idsKept_quiet.keeps (spares_findCollection _).clearing).bind fun _ _ =>
    .liftM_bind fun new hnew => ?_
  obtain ⟨text, rfl, hplain⟩ := h new hnew
  split
  · rename_i hsame
    rw [Json.same_str] at hsame
    rw [hsame] at hnew
    exact keeps_store hnew resolved
  · rename_i hother
    have hne : text ≠ id := fun heq => hother (Json.same_str.mpr (congrArg Json.str heq))
    have hmove : Keeps db.answer db.IdsKept
        (tell (.reindex ⟨.str id, .str text, none, resolved.toJson⟩)) fun _ => True :=
      .tell fun s hs => hs.answer fun key document hwrites =>
        absurd (hwrites (hplain hne)).1.symm (hapart _)
    refine (keeps_create ?_ _).bind fun _ _ => hmove.bind fun _ _ => idsKept_quiet.keeps
      (clears_deleteCollection _ _)
    intro id hid
    rw [hnew] at hid
    exact ⟨text, (Except.ok.inj hid).symm⟩

theorem keeps_script (hscript : Patch.script ops = .ok script)
    (h : ∀ op ∈ ops, op.plain = true ∧ ¬ op.Touches "id") (index : String) (id : Json) :
    Keeps db.answer db.IdsKept (tell (.update index id script)) fun _ => True := by
  refine .tell fun s hs => hs.answer ?_
  rintro key document ⟨rfl, -, old, hold, hrun⟩
  exact db.untouched hscript (fun op hop => (h op hop).1) (fun op hop => (h op hop).2) hrun
    (hs key old hold)

theorem keeps_patch (hapart : n.Apart) (h : Orderly id ops) (refresh : Json) :
    Keeps db.answer db.IdsKept (patch ctx (.str id) ops refresh) fun _ => True := by
  have hcontent :
      ∀ op ∈ ops.filter fun op => !renames (.str id) op, op.plain = true ∧ ¬ op.Touches "id" := by
    intro op hop
    obtain ⟨hmem, hkept⟩ := mem_filter.mp hop
    exact h.content op hmem (by simpa using hkept)
  refine .liftM_bind fun script hscript =>
    (keeps_script hscript hcontent _ _).orRefused.bind fun _ _ =>
    (idsKept_quiet.keeps (spares_findCollection _).clearing).bind fun found _ => ?_
  split
  · rename_i hnew
    -- The new id is the value of one of the operations.
    obtain ⟨text, htext, hplain⟩ :
        ∃ text, ((ops.filter (renames (.str id))).map (·.value)).getLastD .null = .str text ∧
          Move.plain ⟨.str id, .str text, none, .null⟩ = true := by
      rw [getLastD_eq_getLast?] at hnew ⊢
      cases hlast : ((ops.filter (renames (.str id))).map (·.value)).getLast? with
      | none =>
        rw [hlast] at hnew
        cases hnew
      | some value =>
        obtain ⟨op, hop, rfl⟩ := mem_map.mp (mem_of_getLast? hlast)
        exact h.target op (mem_of_mem_filter hop) (mem_filter.mp hop).2
    refine .liftM_bind fun renamed hrenamed => .liftM_bind fun linked hlinked => ?_
    have hid : linked.item "id" = .ok (.str text) := by
      rw [Json.item_setItem hlinked, if_neg (by decide), Json.item_setItem hrenamed,
        if_pos rfl, htext]
    refine (keeps_update hapart ?_ _).bind fun _ _ => .pure trivial
    intro new hitem
    rw [hid] at hitem
    exact ⟨text, (Except.ok.inj hitem).symm, fun _ => hplain⟩
  · exact .pure trivial

/-- A patch that is no rename runs a script and reads what came of it. -/
theorem run_patch_eq_ok {refresh result : Json} (hops : ∀ op ∈ ops, renames (.str id) op = false)
    (hscript : Patch.script ops = .ok script)
    (hrun : (patch ctx (.str id) ops refresh).run db.answer s = (.ok result, t)) :
    ∃ u reply, db.answer s (.update ctx.naming.collections (.str id) script) = (.value reply, u) ∧
      (find ctx (.str id)).run db.answer u = (.ok result, t) := by
  have hnone : ops.filter (renames (.str id)) = [] := by
    rw [filter_eq_nil_iff]
    intro op hop
    rw [hops op hop]
    exact Bool.false_ne_true
  have hall : (ops.filter fun op => !renames (.str id) op) = ops := by
    rw [filter_eq_self]
    intro op hop
    rw [hops op hop]
    rfl
  unfold patch at hrun
  rw [hnone, hall] at hrun
  obtain ⟨script', hscript', hrun⟩ := run_liftM_bind_eq_ok.mp hrun
  rw [hscript] at hscript'
  cases hscript'
  obtain ⟨done, u, hupdate, hrun⟩ := run_bind_eq_ok.mp hrun
  obtain ⟨reply, hreply, rfl⟩ := run_tell_eq_ok.mp (run_orRefused_eq_ok.mp hupdate)
  refine ⟨_, reply, Prod.ext hreply rfl, ?_⟩
  obtain ⟨found, v, hfind, hrun⟩ := run_bind_eq_ok.mp hrun
  cases hrun
  exact hfind

theorem shelf_find (hobeys : db.Obeys) {id result : Json}
    (hrun : (find ctx id).run db.answer s = (.ok result, t)) : db.shelf t = db.shelf s := by
  obtain ⟨reply, u, hget, hrun⟩ := run_bind_eq_ok.mp hrun
  obtain ⟨-, rfl⟩ := run_perform_eq_ok.mp (run_orMissing_eq_ok.mp hget)
  obtain ⟨-, rfl⟩ := run_liftM_eq_ok.mp hrun
  exact hobeys.get _ _ _

/-- A patch that is no rename leaves collections their ids exactly if its script leaves this one its
id. -/
theorem idsKept_patch_iff (hobeys : db.Obeys) (hctx : ctx.naming = n) (hs : db.IdsKept s)
    {refresh result : Json} (hops : ∀ op ∈ ops, renames (.str id) op = false)
    (hscript : Patch.script ops = .ok script)
    (hrun : (patch ctx (.str id) ops refresh).run db.answer s = (.ok result, t)) :
    db.IdsKept t ↔
      ∀ old new, db.shelf s n.collections id = some old → db.run script old = some new →
        new.item "id" = .ok (.str id) := by
  obtain ⟨u, reply, hupdate, hfind⟩ := run_patch_eq_ok hops hscript hrun
  have hshelf := shelf_find hobeys hfind
  rw [hctx] at hupdate
  constructor
  · intro ht old new hold hnew
    refine ht id new ?_
    rw [hshelf]
    have hdone := hobeys.update hold hnew (congrArg Prod.fst hupdate)
    rwa [hupdate] at hdone
  · intro hnew key document hfound
    rw [hshelf] at hfound
    have hstate : (db.answer s (.update n.collections (.str id) script)).2 = u :=
        congrArg Prod.snd hupdate
    rw [← hstate] at hfound
    rcases db.found hfound with hold | ⟨-, hid, old, hold, hran⟩
    · exact hs key document hold
    · cases hid
      exact hnew old document hold hran

end Collections

/-! ### Runs -/

variable {n : Naming} {σ : Type} {db : Database n σ} {s : σ}

/-- The database after a list of requests about collections, each of which may fail. -/
def Database.runRequests (db : Database n σ) (requests : List (Context × CollectionRequest))
    (s : σ) : σ :=
  requests.foldl (fun s request => ((request.2.program request.1).run db.answer s).2) s

/-- **One request.** An orderly request leaves collections their ids, however it ends. -/
theorem CollectionRequest.keeps_program (hapart : n.Apart) {ctx : Context}
    {request : CollectionRequest} (h : request.Orderly) :
    Keeps db.answer db.IdsKept (request.program ctx) fun _ => True := by
  cases request with
  | create collection request refresh =>
    refine .liftM_bind fun stored hstored => (keeps_create ?_ refresh).bind fun _ _ =>
      .liftM fun _ _ => trivial
    intro id hid
    rw [Collection.toStored_item hstored (by decide)] at hid
    exact h id hid
  | update id collection request refresh =>
    refine .liftM_bind fun stored hstored => (keeps_update hapart ?_ refresh).bind fun _ _ =>
      .liftM fun _ _ => trivial
    intro new hnew
    rw [Collection.toStored_item hstored (by decide)] at hnew
    exact h new hnew
  | patch id body request =>
    show Keeps db.answer db.IdsKept (patchCollection ctx (.str id) body request) fun _ => True
    unfold patchCollection
    cases hops : operationsOf body (Fields.getD request.headers "content-type") with
    | none => exact .fail _
    | some ops =>
      refine (keeps_patch hapart (h ops hops) _).bind fun patched _ => ?_
      split
      · exact .liftM fun _ _ => trivial
      · exact .fail _
  | delete id refresh =>
    exact (idsKept_quiet.keeps (clears_deleteCollection _ refresh)).bind fun _ _ => .pure trivial

theorem idsKept_runRequests (hapart : n.Apart) {requests : List (Context × CollectionRequest)}
    (h : ∀ request ∈ requests, request.2.Orderly) (hs : db.IdsKept s) :
    db.IdsKept (db.runRequests requests s) := by
  induction requests generalizing s with
  | nil => exact hs
  | cons request rest ih =>
    have hstep : db.IdsKept ((request.2.program request.1).run db.answer s).2 :=
      (CollectionRequest.keeps_program hapart (h request mem_cons_self) s hs).1
    exact ih (fun request hrequest => h request (mem_cons_of_mem _ hrequest)) hstep

theorem script_add_id {path : String} (hpath : path = "id" ∨ path = "/id") (value : Json) :
    Patch.script [.add path value] = .ok ⟨Patch.assignment "id", [("id", value)]⟩ := by
  let p : Patch.Path := ⟨"id", "", "", "id", "id", "", "id", none⟩
  have hp : Patch.Path.ofPointer path = .ok p := by
    rcases hpath with rfl | rfl <;> decide
  have hcommands : [add path value].mapM commands =
      .ok [[.put p true .param]] := by
    rw [mapM_eq_ok, forall₂_cons]
    refine ⟨?_, .nil⟩
    unfold commands
    rw [show (add path value).path = path from rfl, hp]
    rfl
  have hparams : [add path value].mapM param =
      .ok [[("id", value)]] := by
    rw [mapM_eq_ok, forall₂_cons]
    refine ⟨?_, .nil⟩
    have hkey : p.paramKey = "id" := by decide
    unfold param
    simp only [hp, ok_bind, hkey, pure_eq_ok]
  have hsource : String.join (Patch.commandSet [.put p true .param]) =
      Patch.assignment "id" := by decide
  refine Patch.script_eq_ok_iff.mpr ⟨cons_ne_nil _ _, _, _, hcommands, hparams, ?_⟩
  rw [← hsource]
  rfl

/-- **Ids of collections.** If every collection has the id it is stored under, then so it is after
any requests to create, replace, patch and delete collections, however each of them ends, as long as
no patch touches the id other than by a rename. On a database that does what it is told, a patch
that is no rename keeps the ids exactly if its script leaves the collection its id. A patch that
adds an id is such a script: it assigns the id, so it keeps the ids only if that is the id the
collection has. -/
theorem ids_kept_by_requests (hapart : n.Apart) (hs : db.IdsKept s) :
    (∀ requests : List (Context × CollectionRequest),
      (∀ request ∈ requests, request.2.Orderly) → db.IdsKept (db.runRequests requests s)) ∧
    (db.Obeys →
      ∀ (ctx : Context) (id : String) (ops : List Patch.Operation) (script : Patch.Script)
          (refresh result : Json) (t : σ), ctx.naming = n →
        (∀ op ∈ ops, Collections.renames (.str id) op = false) → Patch.script ops = .ok script →
        (Collections.patch ctx (.str id) ops refresh).run db.answer s = (.ok result, t) →
        (db.IdsKept t ↔
          ∀ old new, db.shelf s n.collections id = some old → db.run script old = some new →
            new.item "id" = .ok (.str id)) ∧
        ∀ path value old new, ops = [.add path value] → (path = "id" ∨ path = "/id") →
          db.shelf s n.collections id = some old → old.setItem "id" value = .ok new →
          script = ⟨Patch.assignment "id", [("id", value)]⟩ ∧
          (db.run script old = some new → (db.IdsKept t ↔ value = .str id))) := by
  refine ⟨fun requests hrequests => idsKept_runRequests hapart hrequests hs, ?_⟩
  intro hobeys ctx id ops script refresh result t hctx hops hscript hrun
  have hexact := idsKept_patch_iff hobeys hctx hs hops hscript hrun
  refine ⟨hexact, ?_⟩
  rintro path value old new rfl hpath hold hnew
  rw [script_add_id hpath] at hscript
  refine ⟨(Except.ok.inj hscript).symm, fun hran => ?_⟩
  have hid : new.item "id" = .ok value := by rw [Json.item_setItem hnew, if_pos rfl]
  rw [hexact]
  constructor
  · intro hkept
    have hvalue := hkept old new hold hran
    rw [hid] at hvalue
    exact Except.ok.inj hvalue
  · rintro rfl old' new' hold' hran'
    rw [hold] at hold'
    cases hold'
    rw [hran] at hran'
    cases hran'
    exact hid

def orderlyRevisions : List CollectionRequest :=
  [.create (.obj [("id", .str "a")]) default none,
   .patch "a" (.merge [("title", .str "A")])
     { (default : Request) with
       headers := [("content-type", .str "application/merge-patch+json")] },
   .update "a" (.obj [("id", .str "b")]) default none]

theorem orderly_revisions : ∀ request ∈ orderlyRevisions, request.Orderly := by
  intro request hrequest
  simp only [orderlyRevisions, mem_cons, not_mem_nil, or_false] at hrequest
  rcases hrequest with rfl | rfl | rfl
  · rintro id ⟨⟩
    exact ⟨"a", rfl⟩
  · rintro ops ⟨⟩
    refine ⟨?_, ?_⟩
    · intro op hop _
      rw [mem_singleton.mp hop]
      refine ⟨by decide, ?_⟩
      rintro ⟨path, hpath, hhead⟩
      rw [mem_singleton.mp hpath] at hhead
      exact absurd hhead (by decide)
    · intro op hop hrename
      rw [mem_singleton.mp hop] at hrename
      cases hrename
  · rintro new ⟨⟩
    exact ⟨"b", rfl, fun _ => by decide⟩

def idStore : Database .standard Store :=
  Store.assigning .standard "id" (by decide)

def revisedStore : Store :=
  idStore.runRequests (orderlyRevisions.map fun request => (noon, request)) ⟨[], []⟩

/-- From an empty store, the requests leave one collection, under its own id. A patch that gives it
another id is then run on it, and it lies under an id that is not its own. -/
theorem ids_kept_by_requests_revised :
    idStore.IdsKept revisedStore ∧ (idStore.shelf revisedStore "collections" "b").isSome = true ∧
    ∃ result t,
      (Collections.patch noon (.str "b") [.add "/id" (.str "c")] (.bool true)).run idStore.answer
          revisedStore = (.ok result, t) ∧
      (∃ document,
        idStore.shelf t "collections" "b" = some document ∧ document.item "id" = .ok (.str "c")) ∧
      ¬ idStore.IdsKept t := by
  have hempty : idStore.IdsKept ⟨[], []⟩ := fun _ _ h => nomatch h
  have hkept : idStore.IdsKept revisedStore := by
    refine (ids_kept_by_requests Naming.apart_standard hempty).1 _ fun request hrequest => ?_
    obtain ⟨request, hmem, rfl⟩ := List.mem_map.mp hrequest
    exact orderly_revisions request hmem
  have hstored : revisedStore.find? "collections" (.str "b") =
      some (.obj [("id", .str "b"), ("links", .arr [])]) := by
    decide +kernel
  have hrun : (Collections.patch noon (.str "b") [.add "/id" (.str "c")] (.bool true)).run
        idStore.answer revisedStore =
      (.ok (.obj [("id", .str "c"), ("links", .arr [])]),
        ((Collections.patch noon (.str "b") [.add "/id" (.str "c")] (.bool true)).run idStore.answer
          revisedStore).2) := by
    refine Prod.ext ?_ rfl
    decide +kernel
  obtain ⟨-, hexact⟩ := ids_kept_by_requests Naming.apart_standard hkept
  obtain ⟨-, hassign⟩ := hexact (Store.obeys_assigning _ _) noon "b" _ _ _ _ _ rfl (by decide)
    (script_add_id (Or.inr rfl) _) hrun
  refine ⟨hkept, ?_, _, _, hrun, ⟨.obj [("id", .str "c"), ("links", .arr [])], ?_, rfl⟩, ?_⟩
  · exact Option.isSome_iff_exists.mpr ⟨_, hstored⟩
  · show Store.find? _ "collections" (.str "b") = _
    decide +kernel
  · rw [(hassign _ _ _ _ rfl (Or.inr rfl) hstored rfl).2 rfl]
    simp

end StacCatalog
