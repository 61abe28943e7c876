import StacCatalog.Proofs.Placement.Runs

/-!
# What a patch that fails leaves behind
-/

namespace StacCatalog

variable {c : Call} {item : Json} {ops : List Patch.Operation} {r : Items.Relocation}
    {collection : String}
  {refresh existOk : Bool}

def Fault.isConflict : Fault → Bool
  | .conflict _ => true
  | _ => false

namespace Shelf

/-- A script has been run on the document at a place, and nothing else has changed. -/
def Edited (run : Patch.Script → Json → Option Json) (script : Patch.Script) (index key : String)
    (before after : Shelf) : Prop :=
  ∃ old document, before index key = some old ∧ run script old = some document ∧
    after = before.set index key (some document)

def Removed (index key : String) (before after : Shelf) : Prop :=
  (before index key).isSome = true ∧ after index key = none

end Shelf

namespace Database

variable {n : Naming} {σ : Type}

/-- A database that does what it is told and nothing else. A call that fails has done nothing. -/
structure Exact (db : Database n σ) : Prop where
  failed : ∀ {s c}, (∀ v, (db.answer s c).1 ≠ .value v) → db.shelf (db.answer s c).2 = db.shelf s
  asked : ∀ s index id, db.shelf (db.answer s (.exists index id)).2 = db.shelf s
  got : ∀ s index id, db.shelf (db.answer s (.get index id)).2 = db.shelf s
  /-- A script changes the document it is run on, if there is one. -/
  updated : ∀ {s index key script v}, (db.answer s (.update index (.str key) script)).1 = .value v →
    db.shelf s index key = none ∧ db.shelf (db.answer s (.update index (.str key) script)).2 =
      db.shelf s ∨ Shelf.Edited db.run script index key (db.shelf s)
      (db.shelf (db.answer s (.update index (.str key) script)).2)
  indexed : ∀ {s index key document refresh v},
    (db.answer s (.index index (.str key) document refresh)).1 = .value v →
    db.shelf (db.answer s (.index index (.str key) document refresh)).2 =
      (db.shelf s).set index key (some document)
  /-- A document that is there can be deleted. -/
  deleted : ∀ {s index key refresh}, (db.shelf s index key).isSome = true →
    ∃ v, (db.answer s (.delete index (.str key) refresh)).1 = .value v ∧
      db.shelf (db.answer s (.delete index (.str key) refresh)).2 = (db.shelf s).set index key none
  /-- A move copies documents; it takes none away. -/
  moved : ∀ s move, (∃ v, (db.answer s (.reindex move)).1 = .value v) ∧
    ∀ index key, (db.shelf s index key).isSome = true →
      (db.shelf (db.answer s (.reindex move)).2 index key).isSome = true
  /-- A script makes an object of an object. -/
  object : ∀ {script fields document}, db.run script (.obj fields) = some document → ∃ fields',
    document = .obj fields'
  /-- That something is already stored is for the catalogue to say. -/
  conflict : ∀ {s c fault}, (db.answer s c).1 = .fault fault → fault.isConflict = false

theorem Exact.keeps_asked {db : Database n σ} (hdb : db.Exact) (shelf : Shelf) (index : String)
    (id : Json) (s : σ) (hs : db.shelf s = shelf) :
    db.shelf (db.answer s (.exists index id)).2 = shelf :=
  (hdb.asked s index id).trans hs

end Database

namespace Items

open Program Database Naming

variable {n : Naming} {σ : Type} {db : Database n σ} {ctx : Context} {s t : σ} {fault : Fault}

/-! ### Faults that are no conflicts -/

theorem isConflict_perform (hdb : db.Exact) (h : (perform c).run db.answer s = (.error fault, t)) :
    fault.isConflict = false := by
  obtain ⟨hreply | ⟨-, rfl⟩, -⟩ := run_perform_eq_error.mp h
  · exact hdb.conflict hreply
  · rfl

theorem isConflict_tell (hdb : db.Exact) (h : (tell c).run db.answer s = (.error fault, t)) :
    fault.isConflict = false :=
  isConflict_perform hdb (run_perform_eq_error.mpr (run_tell_eq_error.mp h))

theorem isConflict_orMissing {α : Type} {p : Program α} {what : Missing}
    (hp : ∀ {fault}, p.run db.answer s = (.error fault, t) → fault.isConflict = false)
    (h : (p.orMissing what).run db.answer s = (.error fault, t)) : fault.isConflict = false := by
  obtain ⟨cause, hcause, rfl⟩ := run_orMissing_eq_error h
  split
  · rfl
  · exact hp hcause

theorem isConflict_aliasFor {collection : Json} (h : ctx.aliasFor collection = .error fault) :
    fault.isConflict = false := by
  cases collection <;> cases h <;> rfl

theorem isConflict_item {value : Json} {name : String} (h : value.item name = .error fault) :
    fault.isConflict = false := by
  unfold Json.item at h
  split at h
  · split at h <;> cases h
    rfl
  all_goals
    cases h
    rfl

section Exact

variable (hdb : db.Exact)

include hdb

theorem isConflict_relocation {collection : Json}
    (h : (relocation ctx collection item r ops).run db.answer s = (.error fault, t)) :
    fault.isConflict = false := by
  induction ops generalizing r s with
  | nil => cases h
  | cons op rest ih =>
    rw [relocation_cons] at h
    rcases run_bind_eq_error.mp h with h | ⟨_, u, -, h⟩
    · split at h
      · rcases run_bind_eq_error.mp h with h | ⟨found, u, -, h⟩
        · exact isConflict_perform hdb h
        · split at h <;> cases h
          rfl
      · cases h
    · exact ih h

/-! ### The steps of a patch -/

theorem shelf_of_tell_error (h : (tell c).run db.answer s = (.error fault, t)) :
    db.shelf t = db.shelf s := by
  obtain ⟨hreply, rfl⟩ := run_tell_eq_error.mp h
  refine hdb.failed fun v hv => ?_
  rcases hreply with hreply | ⟨hreply, -⟩ <;> cases hreply.symm.trans hv

theorem shelf_of_update {index key : String} {script : Patch.Script} {v : Unit}
    (h : (tell (.update index (.str key) script)).run db.answer s = (.ok v, t)) :
    db.shelf s index key = none ∧ db.shelf t = db.shelf s ∨
    Shelf.Edited db.run script index key (db.shelf s) (db.shelf t) := by
  obtain ⟨v, hv, rfl⟩ := run_tell_eq_ok.mp h
  exact hdb.updated hv

theorem run_find_state (collection item : Json) :
    db.shelf ((find ctx collection item).run db.answer s).2 = db.shelf s := by
  have hfind :
      Keeps db.answer (db.shelf · = db.shelf s) (find ctx collection item) fun _ => True := by
    refine .liftM_bind fun index _ => (Keeps.perform ?_ fun _ _ _ _ => trivial).orMissing.bind
      fun (reply : Json) (_ : True) => .liftM fun _ _ => trivial
    exact fun u hu => (hdb.got u _ _).trans hu
  exact (hfind s rfl).1

theorem exists_run_find (hctx : ctx.naming = n) {document : Json}
    (h : db.shelf s (n.aliasOf collection) (documentId item (.str collection)) = some document) :
    ∃ t, (find ctx (.str collection) item).run db.answer s = (.ok document, t) ∧
      db.shelf t = db.shelf s :=
  ⟨_, Prod.ext (run_find hctx h) rfl, run_find_state hdb _ _⟩

theorem run_find_absent (hctx : ctx.naming = n) {α : Type} {f : Json → Program α}
    (habsent : db.shelf s (n.aliasOf collection) (documentId item (.str collection)) = none)
    (h : (find ctx (.str collection) item >>= f).run db.answer s = (.error fault, t)) :
    db.shelf t = db.shelf s ∧ fault.isConflict = false := by
  subst hctx
  rcases run_bind_eq_error.mp h with hfind | ⟨document, u, hfind, -⟩
  · have hstate := @run_find_state _ _ _ ctx s hdb (.str collection) item
    rw [hfind] at hstate
    refine ⟨hstate, ?_⟩
    rcases run_liftM_bind_eq_error.mp hfind with ⟨⟨⟩, -⟩ | ⟨index, -, hfind⟩
    rcases run_bind_eq_error.mp hfind with hget | ⟨reply, u, -, hsource⟩
    · exact isConflict_orMissing (isConflict_perform hdb) hget
    · rw [run_liftM, Prod.mk.injEq] at hsource
      exact isConflict_item hsource.1
  · obtain ⟨index, ⟨⟩, hfind⟩ := run_liftM_bind_eq_ok.mp hfind
    obtain ⟨reply, u, hget, hfind⟩ := run_bind_eq_ok.mp hfind
    obtain ⟨hreply, -⟩ := run_perform_eq_ok.mp (run_orMissing_eq_ok.mp hget)
    obtain ⟨hsource, -⟩ := run_liftM_eq_ok.mp hfind
    rw [db.read hreply hsource] at habsent
    cases habsent

theorem run_delete_of_isSome (hctx : ctx.naming = n) {collection : String} {item : Json}
    {refresh : Bool}
    (h : (db.shelf s (n.aliasOf collection) (documentId item (.str collection))).isSome = true) :
    ∃ t, (delete ctx (.str collection) item (some (.bool refresh))).run db.answer s = (.ok (), t) ∧
      db.shelf t =
        (db.shelf s).set (n.aliasOf collection) (documentId item (.str collection)) none := by
  subst hctx
  obtain ⟨v, hv, hshelf⟩ :=
      @hdb.deleted s _ _ (.ofBool (ctx.env.flag "DATABASE_REFRESH" (.bool refresh))) h
  refine ⟨_, ?_, hshelf⟩
  refine run_liftM_bind_eq_ok.mpr ⟨_, rfl, run_liftM_bind_eq_ok.mpr ⟨_, rfl, ?_⟩⟩
  exact run_orMissing_eq_ok.mpr (run_tell_eq_ok.mpr ⟨v, hv, rfl⟩)

theorem run_delete_error {collection : Json}
    (h : (delete ctx collection item (some (.bool refresh))).run db.answer s = (.error fault, t)) :
    db.shelf t = db.shelf s ∧ fault.isConflict = false := by
  rcases run_liftM_bind_eq_error.mp h with ⟨⟨⟩, -⟩ | ⟨_, -, h⟩
  rcases run_liftM_bind_eq_error.mp h with ⟨halias, rfl⟩ | ⟨index, -, h⟩
  · exact ⟨rfl, isConflict_aliasFor halias⟩
  · obtain ⟨cause, hcause, -⟩ := run_orMissing_eq_error h
    exact ⟨shelf_of_tell_error hdb hcause, isConflict_orMissing (isConflict_tell hdb) h⟩

/-- A move ends with the item gone from its place, after the database was told to move it. -/
theorem run_moveTo_of_isSome (hctx : ctx.naming = n) {target document moved : Json}
    (hmoved : document.setItem "collection" target = .ok moved) (refresh : Bool)
    (h : (db.shelf s (n.aliasOf collection) (documentId item (.str collection))).isSome = true) :
    ∃ t,
      (moveTo ctx (.str collection) item target document (.bool refresh)).run db.answer s =
        (.ok moved, t) ∧
      db.shelf t =
        (db.shelf (db.answer s (.reindex ⟨.str collection, target, some item, .bool true⟩)).2).set
          (n.aliasOf collection) (documentId item (.str collection)) none := by
  obtain ⟨⟨v, hv⟩, hstays⟩ := hdb.moved s ⟨.str collection, target, some item, .bool true⟩
  obtain ⟨t, hdelete, hshelf⟩ := run_delete_of_isSome hdb hctx (hstays _ _ h)
  refine ⟨t, ?_, hshelf⟩
  unfold moveTo
  rw [run_bind_ok (a := ()) (run_tell_eq_ok.mpr ⟨v, hv, rfl⟩), run_bind_ok hdelete,
    run_liftM, hmoved]

theorem shelf_prepare (item : Json) (existOk : Bool) :
    db.shelf ((prepare ctx item existOk).run db.answer s).2 = db.shelf s :=
  (keeps_prepare (hdb.keeps_asked (db.shelf s)) item existOk s rfl).1

theorem run_create_error {refresh : Option Json}
    (h : (create ctx item existOk refresh).run db.answer s = (.error fault, t)) :
    db.shelf t = db.shelf s := by
  rcases run_liftM_bind_eq_error.mp h with ⟨-, rfl⟩ | ⟨_, -, h⟩
  · rfl
  rcases run_liftM_bind_eq_error.mp h with ⟨-, rfl⟩ | ⟨_, -, h⟩
  · rfl
  rcases run_liftM_bind_eq_error.mp h with ⟨-, rfl⟩ | ⟨_, -, h⟩
  · rfl
  -- The checks only ask, and the one call that writes comes after them.
  have hprepare := @shelf_prepare _ _ _ ctx s hdb item existOk
  rcases run_bind_eq_error.mp h with h | ⟨stored, u, hstored, h⟩
  · rwa [h] at hprepare
  rw [hstored] at hprepare
  rcases run_liftM_bind_eq_error.mp h with ⟨-, rfl⟩ | ⟨_, -, h⟩
  · exact hprepare
  rcases run_bind_eq_error.mp h with h | ⟨_, _, -, h⟩
  · exact (shelf_of_tell_error hdb h).trans hprepare
  · cases h

theorem run_create_ok {stored : Json} {refresh : Option Json}
    (h : (create ctx item existOk refresh).run db.answer s = (.ok stored, t)) :
    Item.toStored ctx.library ctx.now item = .ok stored ∧
    ∃ id collection index, item.item "id" = .ok id ∧ item.item "collection" = .ok collection ∧
      ctx.aliasFor collection = .ok index ∧
      db.shelf t = (db.shelf s).set index (documentId id collection) (some stored) := by
  obtain ⟨id, hid, h⟩ := run_liftM_bind_eq_ok.mp h
  obtain ⟨collection, hcollection, h⟩ := run_liftM_bind_eq_ok.mp h
  obtain ⟨_, -, h⟩ := run_liftM_bind_eq_ok.mp h
  obtain ⟨_, u, hprepared, h⟩ := run_bind_eq_ok.mp h
  obtain ⟨hshelf, hstored⟩ :=
      (keeps_prepare (hdb.keeps_asked (db.shelf s)) item existOk).of_run rfl hprepared
  obtain ⟨index, hindex, h⟩ := run_liftM_bind_eq_ok.mp h
  obtain ⟨_, _, htell, h⟩ := run_bind_eq_ok.mp h
  obtain ⟨v, hv, rfl⟩ := run_tell_eq_ok.mp htell
  cases h
  exact ⟨hstored, id, collection, index, hid, hcollection, hindex,
    (hdb.indexed hv).trans (by rw [hshelf])⟩

/-- A new id that cannot be given leaves all as it was. One that was given stays if the item is not
found under its old one. -/
theorem run_rename_error (hctx : ctx.naming = n) {collection new document : Json}
    (h : (rename ctx collection item new document (.bool refresh)).run db.answer s =
      (.error fault, t)) :
    db.shelf t = db.shelf s ∨
    ∃ index key stored, stored.item "id" = .ok new ∧
      db.shelf t = (db.shelf s).set index key (some stored) ∧ fault.isConflict = false ∧
      ∀ text, collection = .str text →
        db.shelf t (n.aliasOf text) (documentId item collection) = none := by
  rcases run_liftM_bind_eq_error.mp h with ⟨-, rfl⟩ | ⟨renamed, hrenamed, h⟩
  · exact .inl rfl
  have hprepare := @shelf_prepare _ _ _ ctx s hdb renamed false
  rcases run_bind_eq_error.mp h with h | ⟨prepared, u, hprepared, h⟩
  · rw [h] at hprepare
    exact .inl hprepare
  obtain ⟨hshelf, htoStored⟩ :=
      (keeps_prepare (hdb.keeps_asked (db.shelf s)) renamed false).of_run rfl hprepared
  rcases run_bind_eq_error.mp h with h | ⟨stored, w, hcreate, h⟩
  · exact .inl ((run_create_error hdb h).trans hshelf)
  obtain ⟨hstored, id, parent, index, -, -, -, hput⟩ := run_create_ok hdb hcreate
  rcases run_bind_eq_error.mp h with h | ⟨_, _, -, h⟩
  · obtain ⟨hsame, hconflict⟩ := run_delete_error hdb h
    refine .inr ⟨index, documentId id parent, stored,
      ?_, by rw [hsame, hput, hshelf], hconflict, ?_⟩
    · rw [Item.toStored_item hstored (by decide) (by decide), Item.toStored_item htoStored
        (by decide) (by decide), Json.item_setItem hrenamed, if_pos rfl]
    · rintro text rfl
      -- A document that is there would have been deleted.
      cases hthere : db.shelf t (n.aliasOf text) (documentId item (.str text)) with
      | none => rfl
      | some old =>
        have hsome : (db.shelf w (n.aliasOf text) (documentId item (.str text))).isSome = true := by
          rw [← hsame, hthere, Option.isSome_some]
        obtain ⟨_, hdelete, -⟩ := @run_delete_of_isSome _ _ _ ctx w hdb hctx text item refresh hsome
        rw [hdelete] at h
        cases h
  · cases h

/-! ### Patches -/

theorem run_settle_error (hctx : ctx.naming = n) {fields : Fields}
    (hthere : db.shelf s (n.aliasOf collection) (documentId item (.str collection)) =
      some (.obj fields))
    (h : (settle ctx (.str collection) item r (.obj fields) (.bool refresh)).run db.answer s =
      (.error fault, t)) :
    r.item.truthy = true ∧
    ∃ u document,
      (if r.collection.truthy then
          db.shelf u (n.aliasOf collection) (documentId item (.str collection)) = none
        else db.shelf u = db.shelf s) ∧
      (rename ctx (if r.collection.truthy then r.collection else .str collection) item r.item
        document (.bool refresh)).run db.answer u = (.error fault, t) := by
  unfold settle at h
  cases hmoves : r.collection.truthy with
  | true =>
    have hmoved : (Json.obj fields).setItem "collection" r.collection = .ok _ := rfl
    obtain ⟨w, hmove, hshelf⟩ := run_moveTo_of_isSome hdb hctx hmoved refresh
        (Option.isSome_of_eq_some hthere)
    simp only [hmoves, if_true] at h ⊢
    rw [run_bind_ok hmove] at h
    split at h
    · rename_i hrenames
      exact ⟨hrenames, w, _, by rw [hshelf, Shelf.set_self], h⟩
    · cases h
  | false =>
    simp only [hmoves, Bool.false_eq_true, if_false] at h ⊢
    rw [run_bind_ok (run_pure _)] at h
    split at h
    · rename_i hrenames
      exact ⟨hrenames, s, .obj fields, rfl, h⟩
    · cases h

/-- A patch fails before its script has done anything, or when the item is to be given its new id.
-/
theorem run_patch_error (hctx : ctx.naming = n)
    (hr : r = Relocation.through (.str collection) item ops {})
    (hitem : ∀ document,
      db.shelf s (n.aliasOf collection) (documentId item (.str collection)) = some document →
      ∃ fields, document = .obj fields)
    (h : (patch ctx (.str collection) item ops (.bool refresh)).run db.answer s =
      (.error fault, t)) :
    db.shelf t = db.shelf s ∧
    (∀ script, Patch.script r.content = .ok script → fault.isConflict = false) ∨
    r.item.truthy = true ∧
    ∃ script u document, Patch.script r.content = .ok script ∧
      (if r.collection.truthy then
          Shelf.Removed (n.aliasOf collection) (documentId item (.str collection)) (db.shelf s)
            (db.shelf u)
        else Shelf.Edited db.run script (n.aliasOf collection) (documentId item (.str collection))
          (db.shelf s) (db.shelf u)) ∧
      (rename ctx (if r.collection.truthy then r.collection else .str collection) item r.item
        document (.bool refresh)).run db.answer u = (.error fault, t) := by
  subst hctx
  -- Telling the operations apart writes nothing, and neither does making a script.
  have hreloc : Keeps db.answer (db.shelf · = db.shelf s)
      (relocation ctx (.str collection) item {} ops) (· = r) :=
    hr ▸ keeps_through (hdb.keeps_asked (db.shelf s)) (.str collection) item ops {}
  rcases run_bind_eq_error.mp h with h | ⟨r', u, hrun, h⟩
  · have hstate := (hreloc s rfl).1
    rw [h] at hstate
    exact .inl ⟨hstate, fun _ _ => isConflict_relocation hdb h⟩
  obtain ⟨hasked, rfl⟩ := hreloc.of_run rfl hrun
  rcases run_liftM_bind_eq_error.mp h with ⟨hscript, rfl⟩ | ⟨script, hscript, h⟩
  · refine .inl ⟨hasked, fun script hok => ?_⟩
    rw [hok] at hscript
    cases hscript
  rcases run_liftM_bind_eq_error.mp h with ⟨⟨⟩, -⟩ | ⟨index, ⟨⟩, h⟩
  -- The script is refused, or finds no document, or is run.
  rcases run_bind_eq_error.mp h with h | ⟨_, w, hupdate, h⟩
  · obtain ⟨cause, hcause, hfault⟩ := run_orRefused_eq_error h
    refine .inl ⟨(shelf_of_tell_error hdb hcause).trans hasked, fun _ _ => ?_⟩
    rcases hfault with rfl | ⟨detail, rfl⟩
    · exact isConflict_tell hdb hcause
    · rfl
  rcases shelf_of_update hdb (run_orRefused_eq_ok.mp hupdate) with ⟨habsent, hsame⟩ | hedited
  · rw [← hsame] at habsent
    obtain ⟨hstate, hconflict⟩ := run_find_absent hdb rfl habsent h
    exact .inl ⟨(hstate.trans hsame).trans hasked, fun _ _ => hconflict⟩
  · rw [hasked] at hedited
    obtain ⟨old, document, hold, hdocument, hset⟩ := hedited
    obtain ⟨fields, rfl⟩ := hitem old hold
    obtain ⟨fields', rfl⟩ := hdb.object hdocument
    obtain ⟨v, hfind, hread⟩ := exists_run_find hdb rfl (hset ▸ Shelf.set_self _ _ _ _)
    rw [run_bind_ok hfind] at h
    rw [← hread] at hset
    obtain ⟨hrenames, x, document, hplace, hrename⟩ :=
        run_settle_error hdb rfl (by rw [hset, Shelf.set_self]) h
    refine .inr ⟨hrenames, script, x, document, hscript, ?_, hrename⟩
    split
    · rename_i hmoves
      rw [if_pos hmoves] at hplace
      exact ⟨by rw [hold, Option.isSome_some], hplace⟩
    · rename_i hmoves
      rw [if_neg hmoves] at hplace
      exact ⟨.obj fields, .obj fields', hold, hdocument, hplace.trans hset⟩

end Exact

/-- **Failed patches.** A patch that fails has changed nothing if it gives the item no new id. If it
does, and leaves the item in its collection, it has changed nothing or has run its script. If it
also moves the item, it has changed nothing, or the item is gone from its place and at most stored
anew. A conflict is found last: then the script has been run, and an item that was to be moved is
gone. -/
theorem patch_error_leaves (hdb : db.Exact) (hctx : ctx.naming = n) {collection : String}
    {item : Json} {ops : List Patch.Operation} {refresh : Bool} {r : Relocation}
    {index key : String} (hr : r = Relocation.through (.str collection) item ops {})
    (hindex : index = n.aliasOf collection) (hkey : key = Naming.documentId item (.str collection))
    (hitem : ∀ document, db.shelf s index key = some document → ∃ fields, document = .obj fields)
    (h : (patch ctx (.str collection) item ops (.bool refresh)).run db.answer s =
      (.error fault, t)) :
    (r.item.truthy = false → db.shelf t = db.shelf s) ∧
    (r.item.truthy = true → r.collection.truthy = false →
      db.shelf t = db.shelf s ∨
      ∃ script, Patch.script r.content = .ok script ∧
        Shelf.Edited db.run script index key (db.shelf s) (db.shelf t)) ∧
    (r.item.truthy = true → r.collection.truthy = true →
      db.shelf t = db.shelf s ∨
      ∃ moved, Shelf.Removed index key (db.shelf s) moved ∧
        (db.shelf t = moved ∨
          ∃ place name stored,
            stored.item "id" = .ok r.item ∧ db.shelf t = moved.set place name (some stored))) ∧
    ∀ script, Patch.script r.content = .ok script → fault.isConflict = true →
      r.item.truthy = true ∧
      if r.collection.truthy then Shelf.Removed index key (db.shelf s) (db.shelf t)
        else Shelf.Edited db.run script index key (db.shelf s) (db.shelf t) := by
  subst hindex hkey
  rcases run_patch_error hdb hctx hr hitem h with
    ⟨hsame, hconflict⟩ | ⟨hrenames, script, u, document, hscript, hleft, hrename⟩
  · refine ⟨fun _ => hsame, fun _ _ => Or.inl hsame, fun _ _ => Or.inl hsame,
      fun script hscript hyes => ?_⟩
    rw [hconflict script hscript] at hyes
    cases hyes
  · have hcases := run_rename_error hdb hctx hrename
    refine ⟨fun hno => ?_, fun _ hstays => Or.inr ⟨script, hscript, ?_⟩, fun _ hmoves =>
      Or.inr ?_, ?_⟩
    · rw [hno] at hrenames
      cases hrenames
    · simp only [hstays, Bool.false_eq_true, if_false] at hleft hcases
      rcases hcases with hsame | ⟨place, name, stored, -, hput, -, hgone⟩
      · rwa [hsame]
      · -- The document that the script has made is still there, and would have been deleted.
        obtain ⟨old, document, -, -, hset⟩ := hleft
        have hmade : (db.shelf u (n.aliasOf collection)
                (Naming.documentId item (.str collection))).isSome = true := by
          rw [hset, Shelf.set_self, Option.isSome_some]
        have hthere := Shelf.isSome_set hmade place name stored
        rw [← hput, hgone collection rfl] at hthere
        cases hthere
    · rw [if_pos hmoves] at hleft
      refine ⟨db.shelf u, hleft, hcases.imp_right ?_⟩
      rintro ⟨place, name, stored, hid, hput, -⟩
      exact ⟨place, name, stored, hid, hput⟩
    · intro script' hscript' hyes
      obtain rfl : script = script' := Except.ok.inj (hscript.symm.trans hscript')
      rcases hcases with hsame | ⟨_, _, _, -, -, hno, -⟩
      · rw [hsame]
        exact ⟨hrenames, hleft⟩
      · rw [hno] at hyes
        cases hyes

end Items

namespace Store

theorem isConflict_hashable {id : Json} {fault : Fault} (h : id.hashable = .error fault) :
    fault.isConflict = false := by
  cases id <;> cases h <;> rfl

/-- An answer that, if it is a failure, changes nothing and is no conflict. -/
def Harmless (s : Store) (given : Reply × Store) : Prop :=
  (∃ v, given.1 = .value v) ∨ given.2 = s ∧ ∃ fault, given.1 = .fault fault ∧
    fault.isConflict = false

theorem harmless_keyed {s : Store} {given : Reply × Store} (h : s.Harmless given) (id : Json) :
    s.Harmless (s.keyed id given) := by
  unfold keyed
  split
  · exact h
  · rename_i fault hfault
    exact .inr ⟨rfl, fault, rfl, isConflict_hashable hfault⟩

theorem harmless_answer (s : Store) (c : Call) : s.Harmless (s.answer [] c) := by
  cases c with
  | «exists» index id | index place id document refresh => exact harmless_keyed (.inl ⟨_, rfl⟩) id
  | get index id | delete index id refresh =>
    refine harmless_keyed ?_ id
    split
    · exact .inl ⟨_, rfl⟩
    · exact .inr ⟨rfl, .absent, rfl, rfl⟩
  | _ => exact .inl ⟨_, rfl⟩

/-- A store that refuses nothing does what it is told and nothing else. -/
theorem exact_database (n : Naming) : (database n []).Exact where
  failed {s c} h := by
    rcases harmless_answer s c with ⟨v, hv⟩ | ⟨hstate, -⟩
    · exact absurd hv (h v)
    · exact congrArg (database n []).shelf hstate
  asked s index id := by
    refine congrArg (database n []).shelf ?_
    rcases keyed_cases s id (.value (.bool (s.find? index id).isSome), s) with hstate |
      hstate <;> exact hstate
  got s index id := congrArg (database n []).shelf (answer_get [] s index id)
  updated {s index key script v} _ := by
    cases hold : (database n []).shelf s index key with
    | none => exact .inl ⟨rfl, rfl⟩
    | some old =>
      refine .inr ⟨old, old, hold, rfl, ?_⟩
      rw [← hold, Shelf.set_get]
      rfl
  indexed {s index key document refresh v} _ := shelf_put s index key document
  deleted {s index key refresh} h := by
    obtain ⟨document, hdocument⟩ := Option.isSome_iff_exists.mp h
    have hanswer : s.answer [] (.delete index (.str key) refresh) =
        (.value (.single "result" (.str "deleted")), s.remove index (.str key)) := by
      have hfind : s.find? index (.str key) = some document := hdocument
      simp only [answer, keyed, Json.hashable, hfind]
    refine ⟨_, congrArg Prod.fst hanswer, ?_⟩
    exact (congrArg (fun given : Reply × Store => given.2.shelf) hanswer).trans
      (shelf_remove s index key)
  moved s move := ⟨⟨_, rfl⟩, fun _ _ h => h⟩
  object h := ⟨_, (Option.some.inj h).symm⟩
  conflict {s c fault} h := by
    rcases harmless_answer s c with ⟨v, hv⟩ | ⟨-, fault', hfault', hno⟩
    · cases h.symm.trans hv
    · cases h.symm.trans hfault'
      exact hno

end Store

namespace Items

def twoItems : Store where
  documents := [
    ("collections", [(.str "a", .single "id" (.str "a")), (.str "b", .single "id" (.str "b"))]),
    ("items_a", [(.str "x|a", itemOf "x" "a")]),
    ("items_b", [(.str "y|b", itemOf "y" "b")])]
  indices := []

def ontoAnother : List Patch.Operation :=
  [.test "type" (.str "Feature"), .replace "collection" (.str "b"), .replace "id" (.str "y")]

/-- An item that is to be moved onto another one is gone from its place. -/
theorem patch_error_leaves_moved :
    ∃ fault t,
      (patch noon (.str "a") (.str "x") ontoAnother (.bool true)).run (Store.answer []) twoItems =
        (.error fault, t) ∧
      fault.isConflict = true ∧ (twoItems.find? "items_a" (.str "x|a")).isSome = true ∧
      t.find? "items_a" (.str "x|a") = none := by
  have hconflict : (match (patch noon (.str "a") (.str "x") ontoAnother (.bool true)).run
      (Store.answer [])
      twoItems with
      | (.error fault, _) => fault.isConflict
      | (.ok _, _) => false) = true := by
    decide +kernel
  have hitem : ∀ document,
      (Store.database .standard []).shelf twoItems "items_a" "x|a" = some document →
      ∃ fields, document = .obj fields :=
    fun document h => ⟨_, (Option.some.inj h).symm⟩
  have hok : (Patch.script (Relocation.through (.str "a") (.str "x") ontoAnother {}).content).isOk =
      true := by
    decide +kernel
  obtain ⟨script, hscript⟩ := Outcome.exists_of_isOk hok
  cases hrun : (patch noon (.str "a") (.str "x") ontoAnother (.bool true)).run
    (Store.answer []) twoItems with
  | mk outcome t =>
    rw [hrun] at hconflict
    cases outcome with
    | ok document => cases hconflict
    | error fault =>
      obtain ⟨-, -, -, hleft⟩ := patch_error_leaves (Store.exact_database .standard) rfl rfl
        (by decide +kernel) (by decide +kernel) hitem hrun
      exact ⟨fault, t, rfl, hconflict, (hleft script hscript hconflict).2⟩

end Items

end StacCatalog
