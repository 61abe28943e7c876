import StacCatalog.Proofs.Cluster.Requests
import StacCatalog.Proofs.Items.Batch
import StacCatalog.Proofs.Patch.Failure

/-!
# What an update of an item writes, and where
-/

namespace StacCatalog

open Program Items Outcome Json

variable {library : Library} {item stored : Json} {now : Time.Moment} {utc : Time.Clock}
    {refresh : Option Json} {existOk : Bool}
  {visible : Refresh}

/-! ### Keeping to a place -/

namespace Shelf

theorem set_of_ne {shelf : Shelf} {index key place name : String}
    (h : ¬ (place = index ∧ name = key)) (document : Option Json) :
    shelf.set index key document place name = shelf place name :=
  if_neg h

/-- There was a document at a place, and no document at any other place has changed. -/
def ChangedOnly (index key : String) (before after : Shelf) : Prop :=
  (before index key).isSome = true ∧ ∀ place name, (place, name) ≠
    (index, key) → after place name = before place name

theorem changedOnly_set_iff (shelf : Shelf) (index key place name : String) (document : Json) :
    shelf.ChangedOnly index key (shelf.set place name (some document)) ↔
      (shelf index key).isSome = true ∧
      ((place, name) = (index, key) ∨ shelf place name = some document) := by
  refine and_congr_right fun _ => ⟨fun h => ?_, fun h other label hother => ?_⟩
  · by_cases hplace : (place, name) = (index, key)
    · exact .inl hplace
    · have hsame := h place name hplace
      rw [set_self] at hsame
      exact .inr hsame.symm
  · by_cases hhere : other = place ∧ label = name
    · obtain ⟨rfl, rfl⟩ := hhere
      rw [set_self, h.resolve_left hother]
    · exact set_of_ne hhere _

end Shelf

/-- What is expected of an update of the document at a place: it succeeds, the document was there
and is the only one that has changed; or it fails and nothing has changed, and if there was no
document, it was not found. -/
def KeepsTo (index key : String) (before : Shelf) (outcome : Outcome Json) (after : Shelf) : Prop :=
  match outcome with
  | .ok _ => before.ChangedOnly index key after
  | .error fault => after = before ∧ (before index key = none → ∃ what, fault = .notFound what)

/-- A database that stores every document it is given. -/
def Database.StoresAll {n : Naming} {σ : Type} (db : Database n σ) : Prop :=
  ∀ s index key document refresh, ∃ v,
    (db.answer s (.index index (.str key) document refresh)).1 = .value v

/-! ### Items on their way in and out -/

theorem IsItem.exists_setItem {id collection : String} (h : IsItem library item id collection)
    (name : String) (value : Json) : ∃ result, item.setItem name value = .ok result := by
  cases item with
  | obj fields => exact ⟨_, rfl⟩
  | _ => cases h.id_eq

theorem IsItem.setItem {result : Json} {id collection name new : String}
    (h : IsItem library item id collection) (hset : item.setItem name (.str new) = .ok result)
    (hname : name ≠ "properties" ∧ name ≠ "links") :
    IsItem library result (if "id" = name then new else id)
      (if "collection" = name then new else collection) where
  id_eq := by
    rw [item_setItem hset, h.id_eq]
    split <;> rfl
  collection_eq := by
    rw [item_setItem hset, h.collection_eq]
    split <;> rfl
  properties := by
    rw [item_setItem hset, if_neg hname.1.symm]
    exact h.properties
  links := by
    rw [lookupD_setItem hset hname.2.symm]
    exact h.links

namespace Item

theorem exists_obj_of_stampProperties {time : String} {properties stamped : Json}
    (h : stampProperties time properties = .ok stamped) : ∃ fields, stamped = .obj fields := by
  obtain ⟨created, -, h⟩ := bind_eq_ok.mp h
  cases created with
  | true => exact exists_obj_of_setItem h
  | false =>
    obtain ⟨_, -, h⟩ := bind_eq_ok.mp h
    exact exists_obj_of_setItem h

theorem properties_and_links_toStored (h : toStored library now item = .ok stored) :
    (∃ properties, stored.item "properties" = .ok (.obj properties)) ∧
    ∃ links resolved,
      library.resolveLinks links = .ok resolved ∧ stored.item "links" = .ok (.arr resolved) := by
  obtain ⟨links, resolved, _, _, _, hresolved, -, hstamped, hitem⟩ := of_toStored h
  obtain ⟨properties, rfl⟩ := exists_obj_of_stampProperties hstamped
  exact ⟨⟨properties, hitem "properties"⟩, links, resolved, hresolved, hitem "links"⟩

theorem isItem_toStored (hlibrary : library.Resolves) {id collection : String}
    (h : IsItem library item id collection) (hstored : toStored library now item = .ok stored) :
    IsItem library stored id collection := by
  obtain ⟨hproperties, links, resolved, hresolved, hlinks⟩ := properties_and_links_toStored hstored
  obtain ⟨again, hagain⟩ := hlibrary links resolved hresolved
  refine ⟨?_, ?_, hproperties, .arr resolved, again, lookupD_of_item hlinks _, hagain⟩
  · rw [toStored_item hstored (by decide) (by decide), h.id_eq]
  · rw [toStored_item hstored (by decide) (by decide), h.collection_eq]

theorem exists_ofStored (hlibrary : library.Resolves) {id collection : Json}
    (h : toStored library now item = .ok stored) (hid : item.item "id" = .ok id)
    (hcollection : item.item "collection" = .ok collection) (baseUrl : String) :
    ∃ answer, ofStored library baseUrl stored = .ok answer := by
  obtain ⟨-, links, resolved, hresolved, hlinks⟩ := properties_and_links_toStored h
  obtain ⟨again, hagain⟩ := hlibrary links resolved hresolved
  rw [← toStored_item h (by decide) (by decide)] at hid hcollection
  cases stored with
  | obj fields =>
    unfold ofStored
    simp only [hid, hcollection, lookupD_of_item hlinks, ok_bind, hagain]
    cases (arr resolved).truthy <;> exact ⟨_, rfl⟩
  | _ => cases hid

theorem exists_restamped (hnow : now.toUtc = .ok utc) {id collection : String}
    (h : IsItem library item id collection) :
    ∃ stamped, restamped now item = .ok stamped ∧ IsItem library stamped id collection := by
  obtain ⟨properties, hproperties⟩ := h.properties
  cases item with
  | obj fields =>
    obtain ⟨stamped, hset⟩ : ∃ stamped, (obj fields).setItem "properties"
        (.obj (Fields.insert properties "updated" (.str (utc.secondsText ++ "Z")))) = .ok stamped :=
          ⟨_, rfl⟩
    refine ⟨stamped, ?_, ⟨?_, ?_, ?_, ?_⟩⟩
    · unfold restamped
      rwa [hnow, ok_bind, hproperties]
    · rw [item_setItem hset, if_neg (by decide), h.id_eq]
    · rw [item_setItem hset, if_neg (by decide), h.collection_eq]
    · rw [item_setItem hset, if_pos rfl]
      exact ⟨_, rfl⟩
    · rw [lookupD_setItem hset (by decide)]
      exact h.links
  | _ => cases h.id_eq

end Item

namespace Transactions

variable {n : Naming} {σ : Type} {db : Database n σ} {ctx : Context} {s t : σ}

/-! ### Runs of an update -/

/-- An update that fails has changed nothing, whatever its body is. -/
theorem shelf_of_update_error (hdb : db.Exact) (hlibrary : ctx.library.Resolves) {body : Json}
    {baseUrl : String} {fault : Fault}
    (h : (updateItem ctx body baseUrl refresh).run db.answer s = (.error fault, t)) :
    db.shelf t = db.shelf s := by
  rcases run_liftM_bind_eq_error.mp h with ⟨-, rfl⟩ | ⟨stamped, -, h⟩
  · rfl
  rcases run_bind_eq_error.mp h with h | ⟨stored, u, hcreate, h⟩
  · exact run_create_error hdb h
  · -- What was stored can be answered, so there is no fault after the call that stores it.
    obtain ⟨hstored, id, collection, -, hid, hcollection, -⟩ := run_create_ok hdb hcreate
    obtain ⟨answer, hanswer⟩ := Item.exists_ofStored hlibrary hstored hid hcollection baseUrl
    rw [hanswer] at h
    cases h

section Items

variable {has : σ → String → String → Bool} {body : Json} {id own : String}
    {answer : Answering σ}

theorem asks_prepare (hanswer : Truthful answer has) (hbody : IsItem ctx.library body id own)
    (hfree : existOk = true ∨
      has s (ctx.naming.aliasOf own) (Naming.documentId (.str id) (.str own)) = false) :
    Asks answer Call.Question (prepare ctx body existOk) s
      (if has s ctx.naming.collections own = false then .error (.notFound (.parent (.str own)))
        else Item.toStored ctx.library ctx.now body) := by
  have hparent : Asks answer Call.Question (checkCollection ctx (.str own)) s _ :=
      Batch.asks_checkCollection hanswer own
  refine .liftM_bind hbody.collection_eq ?_
  by_cases hmissing : has s ctx.naming.collections own = false
  · rw [if_pos hmissing] at hparent ⊢
    exact hparent.bind_error
  rw [if_neg hmissing] at hparent ⊢
  refine hparent.bind_ok ?_
  cases existOk with
  | true => exact .liftM _
  | false =>
    have htaken : Asks answer Call.Question (taken ctx body) s _ := Batch.asks_taken hanswer hbody
    rw [hfree.resolve_left (by decide)] at htaken
    exact htaken.bind_ok (.liftM _)

/-- An item whose collection is not stored is not created, and nothing was asked but whether
documents are there. -/
theorem asks_create_of_missing (hanswer : Truthful answer has)
    (hrefresh : ctx.refresh refresh = .ok visible) (hbody : IsItem ctx.library body id own)
    (hmissing : has s ctx.naming.collections own = false) :
    Asks answer Call.Question (create ctx body true refresh) s
      (.error (.notFound (.parent (.str own)))) := by
  have hprepare : Asks answer Call.Question (prepare ctx body true) s _ :=
      asks_prepare hanswer hbody (.inl rfl)
  rw [if_pos hmissing] at hprepare
  exact .liftM_bind hbody.id_eq
    (.liftM_bind hbody.collection_eq (.liftM_bind hrefresh hprepare.bind_error))

theorem exists_run_create (hdb : db.Exact) (htruthful : Truthful db.answer has)
    (hstores : db.StoresAll) (hrefresh : ctx.refresh refresh = .ok visible)
    (hbody : IsItem ctx.library body id own)
    (hstored : Item.toStored ctx.library ctx.now body = .ok stored)
    (hthere : has s ctx.naming.collections own = true)
    (hfree : existOk = true ∨
      has s (ctx.naming.aliasOf own) (Naming.documentId (.str id) (.str own)) = false) :
    ∃ t, (create ctx body existOk refresh).run db.answer s = (.ok stored, t) ∧
      db.shelf t =
        (db.shelf s).set (ctx.naming.aliasOf own) (Naming.documentId (.str id) (.str own))
          (some stored) := by
  have hprepare : Asks db.answer Call.Question (prepare ctx body existOk) s _ :=
      asks_prepare htruthful hbody hfree
  rw [if_neg (by rw [hthere]; decide), hstored] at hprepare
  obtain ⟨v, hv⟩ := hstores s (ctx.naming.aliasOf own) (Naming.documentId (.str id) (.str own))
      stored visible
  refine ⟨_, ?_, hdb.indexed hv⟩
  unfold create
  rw [hbody.id_eq, hbody.collection_eq, hrefresh]
  simp only [liftM_ok_bind]
  rw [run_bind_ok hprepare.run_eq]
  exact run_bind_ok (a := ()) (run_tell_eq_ok.mpr ⟨v, hv, rfl⟩)

end Items

theorem exists_nowText (h : now.toUtc = .ok utc) : ∃ time, Time.nowText now = .ok time := by
  unfold Time.nowText
  cases now.offset with
  | none => exact ⟨_, rfl⟩
  | some offset => exact ⟨_, by rw [h]; rfl⟩

/-- The body of an update as it is stored. -/
def updated (ctx : Context) (body : Json) : Outcome Json :=
  Item.restamped ctx.now body >>= Item.toStored ctx.library ctx.now

/-- **Where an update goes.** An update that fails has changed nothing. One with an item as its body
goes through exactly if the collection of that item is stored, and then it has put the item where
its own id and collection place it. So it keeps to the place that it was asked for if it does not go
through, or if there is a document at that place and the body belongs there or is stored already as
it is. -/
theorem update_keepsTo_iff {n : Naming} {σ : Type} (db : Database n σ) (hdb : db.Exact)
    (htruthful : Truthful db.answer fun s index key => (db.shelf s index key).isSome)
    (hstores : db.StoresAll) {ctx : Context} (hctx : ctx.naming = n)
    (hlibrary : ctx.library.Resolves) {utc : Time.Clock} (hnow : ctx.now.toUtc = .ok utc)
    {refresh : Option Json} {visible : Refresh} (hrefresh : ctx.refresh refresh = .ok visible)
    (baseUrl : String) (s : σ) :
    (∀ body fault t, (updateItem ctx body baseUrl refresh).run db.answer s = (.error fault, t) →
      db.shelf t = db.shelf s) ∧
    ∀ body id own, IsItem ctx.library body id own →
      ∃ stored outcome t, updated ctx body = .ok stored ∧
        (updateItem ctx body baseUrl refresh).run db.answer s = (outcome, t) ∧
        (if (db.shelf s n.collections own).isSome then
            outcome = Item.ofStored ctx.library baseUrl stored ∧ outcome.isOk = true ∧
            db.shelf t =
              (db.shelf s).set (n.aliasOf own) (Naming.documentId (.str id) (.str own))
                (some stored) else outcome = .error (.notFound (.parent (.str own))) ∧ t = s) ∧
        ∀ collection item : String,
          KeepsTo (n.aliasOf collection) (Naming.documentId (.str item) (.str collection))
              (db.shelf s) outcome (db.shelf t) ↔
            db.shelf s n.collections own = none ∨
            (db.shelf s (n.aliasOf collection)
              (Naming.documentId (.str item) (.str collection))).isSome = true ∧
            ((n.aliasOf own, Naming.documentId (.str id) (.str own)) =
                (n.aliasOf collection, Naming.documentId (.str item) (.str collection)) ∨
              db.shelf s (n.aliasOf own) (Naming.documentId (.str id) (.str own)) =
                some stored) := by
  subst hctx
  refine ⟨fun body fault t h => shelf_of_update_error hdb hlibrary h, fun body id own hbody => ?_⟩
  obtain ⟨stamped, hstamped, his⟩ := Item.exists_restamped hnow hbody
  obtain ⟨time, htime⟩ := exists_nowText hnow
  obtain ⟨stored, hstored⟩ := Item.exists_toStored htime his
  obtain ⟨answer, hanswer⟩ := Item.exists_ofStored hlibrary hstored his.id_eq
      his.collection_eq baseUrl
  have hupdated : updated ctx body = .ok stored := by
    rw [updated, hstamped]
    exact hstored
  have hrun : (updateItem ctx body baseUrl refresh).run db.answer s =
      (create ctx stamped true refresh >>=
        fun stored => liftM (Item.ofStored ctx.library baseUrl stored)).run db.answer s := by
    rw [updateItem, hstamped]
    rfl
  -- The item is written exactly if its own collection is stored.
  cases hthere : db.shelf s ctx.naming.collections own with
  | none =>
    have hcreate := asks_create_of_missing htruthful hrefresh his (by rw [hthere]; rfl)
    refine ⟨stored, .error (.notFound (.parent (.str own))), s, hupdated, ?_,
      ⟨rfl, rfl⟩, fun collection item => ?_⟩
    · rw [hrun, hcreate.bind_error.run_eq]
    · exact iff_of_true ⟨rfl, fun _ => ⟨_, rfl⟩⟩ (Or.inl rfl)
  | some document =>
    have hsome : (db.shelf s ctx.naming.collections own).isSome =
        true := by rw [hthere, Option.isSome_some]
    obtain ⟨t, hcreate, hshelf⟩ := exists_run_create hdb htruthful hstores hrefresh his
        hstored hsome (Or.inl rfl)
    refine ⟨stored, .ok answer, t, hupdated, ?_, ?_, ?_⟩
    · rw [hrun, run_bind_ok hcreate, hanswer]
      rfl
    · exact ⟨hanswer.symm, rfl, hshelf⟩
    · intro collection item
      rw [hshelf]
      simp only [reduceCtorEq, false_or]
      exact Shelf.changedOnly_set_iff ..

/-- An update of an item that is there keeps to its place. One with another item as its body creates
that item, and keeps neither to the place of the body, where nothing was, nor to that of the item
that is there. -/
theorem update_keepsTo_iff_one :
    (∃ answer t,
      (updateItem noon (itemOf "x" "a") "" none).run (Store.answer []) Batch.oneItem =
        (.ok answer, t) ∧
      KeepsTo "items_a" "x|a" Batch.oneItem.shelf (.ok answer) t.shelf) ∧
    ∃ answer t,
      (updateItem noon (itemOf "y" "a") "" none).run (Store.answer []) Batch.oneItem =
        (.ok answer, t) ∧
      ¬ KeepsTo "items_a" "y|a" Batch.oneItem.shelf (.ok answer) t.shelf ∧
      ¬ KeepsTo "items_a" "x|a" Batch.oneItem.shelf (.ok answer) t.shelf := by
  have hdocuments : Truthful (Store.answer []) fun s index key => (s.shelf index key).isSome :=
      Batch.truthful_store []
  have hlibrary : noon.library.Resolves := Library.resolves_plain
  have hnow : ∃ utc, noon.now.toUtc = .ok utc := ⟨_, rfl⟩
  have hrefresh : ∃ visible, noon.refresh none = .ok visible := ⟨_, rfl⟩
  obtain ⟨utc, hnow⟩ := hnow
  obtain ⟨visible, hrefresh⟩ := hrefresh
  obtain ⟨-, hitems⟩ := update_keepsTo_iff (Store.database .standard [])
      (Store.exact_database .standard) hdocuments
    (fun _ _ _ _ _ => ⟨_, rfl⟩) rfl hlibrary hnow hrefresh "" Batch.oneItem
  have hgoes (id : String) := hitems (itemOf id "a") id "a" (Batch.isItem_itemOf id "a")
  have hindex : Naming.standard.aliasOf "a" = "items_a" := by decide +kernel
  have hx : Naming.documentId (.str "x") (.str "a") = "x|a" := by decide +kernel
  have hy : Naming.documentId (.str "y") (.str "a") = "y|a" := by decide +kernel
  constructor
  · obtain ⟨stored, outcome, t, -, hrun, ⟨-, hok, -⟩, hkeeps⟩ := hgoes "x"
    have hhere := hkeeps "a" "x"
    rw [hindex, hx] at hhere
    cases outcome with
    | error fault => cases hok
    | ok answer => exact ⟨answer, t, hrun, hhere.mpr (Or.inr ⟨rfl, Or.inl rfl⟩)⟩
  · obtain ⟨stored, outcome, t, -, hrun, ⟨-, hok, -⟩, hkeeps⟩ := hgoes "y"
    have hhere := hkeeps "a" "y"
    have hother := hkeeps "a" "x"
    rw [hindex, hy] at hhere
    rw [hindex, hx, hy] at hother
    cases outcome with
    | error fault => cases hok
    | ok answer =>
      refine ⟨answer, t, hrun, fun h => ?_, fun h => ?_⟩
      · rcases hhere.mp h with hnone | ⟨hsome, -⟩
        · cases hnone
        · cases hsome
      · rcases hother.mp h with hnone | ⟨-, hplace | hsame⟩
        · cases hnone
        · exact absurd hplace (by decide)
        · cases hsame

end Transactions

end StacCatalog
