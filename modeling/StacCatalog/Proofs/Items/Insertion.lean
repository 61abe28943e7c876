import Mathlib.Data.Set.Card
import StacCatalog.Proofs.Items.Batch

/-!
# What a strict insertion adds to the documents that are stored
-/

namespace StacCatalog

open Program Items Transactions List

variable {text : String} {items : List Json}

/-! ### Shelves -/

def BulkAction.place (action : BulkAction) : String × String :=
  (action.index, action.id)

namespace Shelf

/-- The documents after a batch: each is put at its place, one after the other. -/
def putAll (shelf : Shelf) (actions : List BulkAction) : Shelf :=
  actions.foldl (fun shelf action => shelf.set action.index action.id (some action.document)) shelf

/-- The places at which there was no document and now is one. -/
def added (before after : Shelf) : Set (String × String) :=
  {place | before place.1 place.2 = none ∧ after place.1 place.2 ≠ none}

def Kept (before after : Shelf) : Prop :=
  ∀ index key document, before index key = some document → after index key = some document

variable {shelf : Shelf} {actions : List BulkAction} {place : String × String}

theorem putAll_of_notMem (h : place ∉ actions.map BulkAction.place) :
    shelf.putAll actions place.1 place.2 = shelf place.1 place.2 := by
  induction actions generalizing shelf with
  | nil => rfl
  | cons action rest ih =>
    rw [map_cons, mem_cons, not_or] at h
    have hother : ¬ (place.1 = action.index ∧ place.2 = action.id) :=
        fun hplace => h.1 (Prod.ext hplace.1 hplace.2)
    show putAll (shelf.set action.index action.id (some action.document)) rest place.1 place.2 = _
    rw [ih h.2, set, if_neg hother]

theorem putAll_of_last (shelf : Shelf) (before : List BulkAction) {after : List BulkAction}
    {action : BulkAction} (hlast : action.place ∉ after.map BulkAction.place) :
    shelf.putAll (before ++ action :: after) action.index action.id = some action.document := by
  have hput : shelf.putAll (before ++ action :: after) =
      ((shelf.putAll before).set action.index action.id (some action.document)).putAll after := by
    simp [putAll]
  rw [hput]
  exact (putAll_of_notMem hlast).trans (set_self _ _ _ _)

theorem putAll_ne_none (h : place ∈ actions.map BulkAction.place) :
    shelf.putAll actions place.1 place.2 ≠ none := by
  induction actions generalizing shelf with
  | nil => simp at h
  | cons action rest ih =>
    by_cases hrest : place ∈ rest.map BulkAction.place
    · exact ih hrest
    · obtain rfl : place = action.place := by simpa [hrest] using h
      exact Option.ne_none_iff_exists'.mpr ⟨_, putAll_of_last shelf [] hrest⟩

theorem added_putAll (shelf : Shelf) (actions : List BulkAction) :
    shelf.added (shelf.putAll actions) =
      {place | place ∈ actions.map BulkAction.place ∧ shelf place.1 place.2 = none} := by
  ext place
  show _ ∧ _ ↔ _ ∧ _
  by_cases h : place ∈ actions.map BulkAction.place
  · simp [h, putAll_ne_none h]
  · simp [h, putAll_of_notMem h]

theorem kept_putAll (h : ∀ place ∈ actions.map BulkAction.place, shelf place.1 place.2 = none) :
    Kept shelf (shelf.putAll actions) := by
  intro index key document hdocument
  have hplace : (index, key) ∉ actions.map BulkAction.place := by
    intro hmem
    rw [h _ hmem] at hdocument
    cases hdocument
  rw [← hdocument]
  exact putAll_of_notMem hplace

/-- A batch adds as many documents as it has actions exactly if their places differ and nothing was
there. -/
theorem ncard_added_putAll_iff (shelf : Shelf) (actions : List BulkAction) :
    (shelf.added (shelf.putAll actions)).ncard = actions.length ↔
      (actions.map BulkAction.place).Nodup ∧
      ∀ place ∈ actions.map BulkAction.place, shelf place.1 place.2 = none := by
  have hplaces : (actions.map BulkAction.place).length = actions.length := length_map _
  rw [added_putAll, ← hplaces]
  generalize actions.map BulkAction.place = places
  have hset : {place | place ∈ places ∧ shelf place.1 place.2 = none} =
      ((places.filter fun place => shelf place.1 place.2 = none).toFinset :
        Set (String × String)) := by
    ext place
    simp
  rw [hset, Set.ncard_coe_finset]
  constructor
  · intro h
    have hcard := toFinset_card_le (places.filter fun place => shelf place.1 place.2 = none)
    have hlength := length_filter_le (fun place => decide (shelf place.1 place.2 = none)) places
    have hall : ∀ place ∈ places, shelf place.1 place.2 = none := by
      simpa using length_filter_eq_length_iff.mp (le_antisymm hlength (h ▸ hcard))
    rw [filter_eq_self.mpr (by simpa using hall)] at h
    exact ⟨Multiset.toFinset_card_eq_card_iff_nodup.mp h, hall⟩
  · intro h
    rw [filter_eq_self.mpr (by simpa using h.2)]
    exact toFinset_card_of_nodup h.1

end Shelf

/-! ### Databases that store batches -/

section Batches

variable {σ : Type} {answer : Answering σ} {shelf : σ → Shelf} {ctx : Context} {s s' : σ}

/-- A database that stores batches as they come: it says truthfully whether a document is there,
puts the documents of a batch at their places one after the other, and counts all of them. -/
structure Recording (answer : Answering σ) (shelf : σ → Shelf) : Prop where
  truthful : Truthful answer fun s index key => (shelf s index key).isSome
  asked : ∀ s index id, (answer s (.exists index id)).2 = s
  stored : ∀ s mode actions refresh raise, ∃ t,
    answer s (.bulk mode actions refresh raise) =
      (.value (.arr [.int actions.length, .arr []]), t) ∧ shelf t = (shelf s).putAll actions

/-- Whether nothing is stored where an item itself says that it belongs. -/
def Vacant (ctx : Context) (shelf : Shelf) (item : Json) : Prop :=
  ∃ collection, item.item "collection" = .ok (.str collection) ∧
    shelf (ctx.naming.aliasOf collection) (keyOf item) = none

namespace Recording

theorem keeps_exists (hdb : Recording answer shelf) (index : String) (id : Json) (u : σ)
    (hu : u = s) : (answer u (.exists index id)).2 = s :=
  (hdb.asked u index id).trans hu

theorem keeps_taken (hdb : Recording answer shelf) (s : σ) (item : Json) :
    Keeps answer (· = s) (taken ctx item)
      fun found => found = false → Vacant ctx (shelf s) item := by
  refine .liftM_bind fun collection hcollection => .liftM_bind fun index hindex =>
    .liftM_bind fun id hid => ?_
  obtain ⟨text, rfl, rfl⟩ := aliasFor_eq_ok rfl hindex
  obtain ⟨reply, hreply, htruthy⟩ := hdb.truthful s (ctx.naming.aliasOf text)
      (Naming.documentId id (.str text))
  have hasked : Keeps answer (· = s)
      (perform (.exists (ctx.naming.aliasOf text) (Context.documentId id (.str text))))
      (· = reply) := by
    refine .perform (hdb.keeps_exists _ _) fun u value hu hvalue => ?_
    subst hu
    rw [Context.documentId, hreply] at hvalue
    exact (Reply.value.inj hvalue).symm
  refine hasked.bind fun value hvalue => .pure fun hfree => ⟨text, hcollection, ?_⟩
  rw [hvalue, htruthy] at hfree
  rw [keyOf, Json.field_of_item hid, Json.field_of_item hcollection]
  simpa using hfree

/-- **One item.** A strict insertion makes an item ready if nothing is stored where the item says it
belongs. -/
theorem keeps_prepareForBatch (hdb : Recording answer shelf) (hstrict : ctx.raiseOnBulkError = true)
    (s : σ) (item : Json) :
    Keeps answer (· = s) (prepareForBatch ctx item false)
      fun stored =>
        Item.toStored ctx.library ctx.now item = .ok stored ∧ Vacant ctx (shelf s) item := by
  refine .liftM_bind fun id _ => .liftM_bind fun collection _ =>
    (keeps_checkCollection hdb.keeps_exists collection).bind fun _ _ =>
      (hdb.keeps_taken s item).bind fun found hfound => ?_
  cases found with
  | true =>
    rw [hstrict]
    exact .fail _
  | false => exact .liftM fun stored hstored => ⟨hstored, hfound rfl⟩

/-- **All items.** What a batch sends is put down, and all of it is counted. -/
theorem run_bulk (hdb : Recording answer shelf) {mode : BulkMode} {documents : List Json}
    {refresh : Option Json} {reply : Json × Json}
    (h : (Items.bulk ctx mode (.str text) (.arr documents) refresh).run answer s =
      (.ok reply, s')) :
    ∃ acts,
      List.Forall₂
        (fun document action => Items.action (ctx.naming.aliasOf text) document = .ok action)
        documents acts ∧
      reply.1 = .int documents.length ∧ shelf s' = (shelf s).putAll acts := by
  cases documents with
  | nil =>
    obtain ⟨visible, -, h⟩ := run_liftM_bind_eq_ok.mp h
    cases h
    exact ⟨[], .nil, rfl, rfl⟩
  | cons document rest =>
    obtain ⟨acts, visible, value, hacts, hanswer, hpair⟩ := run_bulk_eq_ok (cons_ne_nil _ _) h
    obtain ⟨index, hindex, hall⟩ := actions_eq_ok hacts
    cases hindex
    obtain ⟨t, hstored, hshelf⟩ := hdb.stored s mode acts visible ctx.raiseOnBulkError
    rw [hstored] at hanswer
    cases hanswer
    cases hpair
    exact ⟨acts, hall, by rw [hall.length_eq], hshelf⟩

end Recording

/-- What a strict insertion has done when it returns: each item was vacant, and all of them were put
into the index of the batch and counted. -/
theorem run_insertion (hdb : Recording answer shelf) (hstrict : ctx.raiseOnBulkError = true)
    {t : Transaction} (hinsert : t.method = .insert) (hbatch : t.batch? = some (.str text, items))
    {result : Json} (h : (t.program ctx).run answer s = (.ok result, s')) :
    (∃ verb, report verb items.length (.int items.length) = .ok result) ∧
    (∀ item ∈ items, Vacant ctx (shelf s) item) ∧
    ∃ acts, shelf s' = (shelf s).putAll acts ∧
      List.Forall₂ (fun item action => action.place = (ctx.naming.aliasOf text, keyOf item) ∧
          Item.toStored ctx.library ctx.now item = .ok action.document) items acts := by
  have hitem (item) : Keeps answer (· = s) (prepareForBatch ctx item (t.method = .upsert))
      fun stored =>
        Item.toStored ctx.library ctx.now item = .ok stored ∧ Vacant ctx (shelf s) item := by
    rw [hinsert]
    exact hdb.keeps_prepareForBatch hstrict s item
  obtain ⟨mode, refresh, prepared, reply, u, verb, rfl, hprepared, hbulk, hreport⟩ :=
    run_batch_eq_ok hitem (fun _ _ hpost => hpost.1) hbatch rfl h
  obtain ⟨acts, hacts, hcount, hshelf⟩ := hdb.run_bulk hbulk
  have hlength := hprepared.length_eq
  refine ⟨⟨verb, ?_⟩, ?_, acts, hshelf, ?_⟩
  · rwa [hlength, ← hcount]
  · intro item hmem
    obtain ⟨stored, -, hstored⟩ := exists_right_of_forall₂ hprepared hmem
    exact hstored.2
  · refine forall₂_through hprepared hacts fun item stored action hstored haction => ⟨?_, ?_⟩
    · exact (place_of_action hstored.1 haction).symm
    · obtain ⟨id, collection, -, -, rfl⟩ := action_eq_ok haction
      exact hstored.1

theorem report_all (verb : String) (count : Nat) :
    report verb count (.int count) =
      .ok (.str ("Successfully " ++ verb ++ " " ++ toString count ++
        " Items. 0 errors occurred.")) := by
  have hcount : (Json.int count).display = toString count := rfl
  have hnone : (Json.int 0).display = "0" := by decide +kernel
  have hmissed : Json.countMinus count (.int count) = .ok (.int 0) := by simp [Json.countMinus]
  simp only [report, hmissed, Outcome.ok_bind, hcount, hnone, Outcome.pure_eq_ok,
    String.append_assoc]
  rfl

theorem map_place_eq {index : String} {acts : List BulkAction}
    (hacts : List.Forall₂ (fun item action => action.place = (index, keyOf item)) items acts) :
    acts.map BulkAction.place = (items.map keyOf).map (index, ·) := by
  rw [map_map]
  exact (map_eq_of_forall₂ (fun _ _ h => h.symm) hacts).symm

/-- **What a strict insertion adds.** A strict insertion that returns reports all its items as
added, without errors. It leaves every stored document as it was and adds as many documents exactly
if the names of its items differ and are free in the index of the batch. If all items belong to that
index no stored document changes, but there are as many new documents only if the names differ.
Under each name the last item of that name is stored. -/
theorem insertion_adds_iff (hdb : Recording answer shelf) (ctx : Context)
    (hstrict : ctx.raiseOnBulkError = true) (t : Transaction) (hinsert : t.method = .insert)
    {text : String} {items : List Json} (hbatch : t.batch? = some (.str text, items)) {s s' : σ}
    {result : Json} (h : (t.program ctx).run answer s = (.ok result, s')) :
    (∃ verb, result = .str ("Successfully " ++ verb ++ " " ++ toString items.length ++
      " Items. 0 errors occurred.")) ∧
    (Shelf.Kept (shelf s) (shelf s') ∧ (Shelf.added (shelf s) (shelf s')).ncard = items.length ↔
      (items.map keyOf).Nodup ∧
      ∀ item ∈ items, shelf s (ctx.naming.aliasOf text) (keyOf item) = none) ∧
    ((∀ item ∈ items, ∃ collection, item.item "collection" = .ok (.str collection) ∧
          ctx.naming.aliasOf collection = ctx.naming.aliasOf text) →
      Shelf.Kept (shelf s) (shelf s') ∧
      ((Shelf.added (shelf s) (shelf s')).ncard = items.length ↔ (items.map keyOf).Nodup)) ∧
    ∀ before item after, items = before ++ item :: after → keyOf item ∉ after.map keyOf →
      ∃ stored, Item.toStored ctx.library ctx.now item = .ok stored ∧
        shelf s' (ctx.naming.aliasOf text) (keyOf item) = some stored := by
  obtain ⟨⟨verb, hreport⟩, hvacant, acts, hshelf, hacts⟩ :=
      run_insertion hdb hstrict hinsert hbatch h
  have hplaces := map_place_eq (hacts.imp fun _ _ hact => hact.1)
  have hnodup : (acts.map BulkAction.place).Nodup ↔ (items.map keyOf).Nodup := by
    rw [hplaces]
    exact nodup_map_iff (Prod.mk_right_injective _)
  have hfree : (∀ place ∈ acts.map BulkAction.place, shelf s place.1 place.2 = none) ↔
      ∀ item ∈ items, shelf s (ctx.naming.aliasOf text) (keyOf item) = none := by
    rw [hplaces]
    simp
  have hcount : (Shelf.added (shelf s) (shelf s')).ncard = items.length ↔
      (items.map keyOf).Nodup ∧
      ∀ item ∈ items, shelf s (ctx.naming.aliasOf text) (keyOf item) = none := by
    rw [hshelf, hacts.length_eq, Shelf.ncard_added_putAll_iff, hnodup, hfree]
  have hkept : (∀ item ∈ items, shelf s (ctx.naming.aliasOf text) (keyOf item) = none) →
      Shelf.Kept (shelf s) (shelf s') := by
    intro hall
    rw [hshelf]
    exact Shelf.kept_putAll (hfree.mpr hall)
  refine ⟨⟨verb, ?_⟩, ?_, ?_, ?_⟩
  · rw [report_all] at hreport
    exact (Except.ok.inj hreport).symm
  · rw [hcount]
    exact and_iff_right_of_imp fun hall => hkept hall.2
  · intro hown
    have hall : ∀ item ∈ items, shelf s (ctx.naming.aliasOf text) (keyOf item) = none := by
      intro item hmem
      obtain ⟨collection, hcollection, halias⟩ := hown item hmem
      obtain ⟨own, hcollection', hnone⟩ := hvacant item hmem
      rw [hcollection] at hcollection'
      cases hcollection'
      rw [← halias]
      exact hnone
    exact ⟨hkept hall, hcount.trans (and_iff_left hall)⟩
  · intro before item after hitems hlast
    -- The actions are split where the items are.
    subst hitems
    have htail := forall₂_drop before.length hacts
    rw [drop_left] at htail
    obtain ⟨action, rest, ⟨hplace, hstored⟩, hrest, hdrop⟩ := forall₂_cons_left_iff.mp htail
    have hlater : action.place ∉ rest.map BulkAction.place := by
      rw [hplace, map_place_eq (hrest.imp fun _ _ hact => hact.1)]
      simpa using hlast
    obtain ⟨hindex, hid⟩ := Prod.mk.inj hplace
    have hfound := Shelf.putAll_of_last (shelf s) (acts.take before.length) hlater
    rw [← hdrop, take_append_drop, ← hshelf, hindex, hid] at hfound
    exact ⟨action.document, hstored, hfound⟩

end Batches

/-! ### The store -/

namespace Store

theorem shelf_putAll (s : Store) (actions : List BulkAction) :
    (s.putAll [] actions).1 = [] ∧ (s.putAll [] actions).2.shelf = s.shelf.putAll actions := by
  induction actions generalizing s with
  | nil => exact ⟨rfl, rfl⟩
  | cons action rest ih =>
    rw [Shelf.putAll, foldl_cons, ← shelf_put]
    exact ih _

theorem recording : Recording (answer []) shelf where
  truthful := Batch.truthful_store []
  asked := by
    intro s index id
    show (s.keyed id (.value (.bool (s.find? index id).isSome), s)).2 = s
    rcases keyed_cases s id (.value (.bool (s.find? index id).isSome), s) with h | h <;> exact h
  stored := by
    intro s mode actions refresh raise
    obtain ⟨hnone, hshelf⟩ := shelf_putAll s actions
    refine ⟨(s.putAll [] actions).2, ?_, hshelf⟩
    simp [answer, hnone]

end Store

def strict : Context :=
  { noon with raiseOnBulkError := true }

def namesakes : List Json :=
  [.obj [("id", .str "y"), ("type", .str "Feature"), ("collection", .str "a"),
    ("properties", .obj [("k", .int 1)])], .obj [("id", .str "y"), ("type", .str "Feature"),
    ("collection", .str "a"), ("properties", .obj [("k", .int 2)])]]

def insertNamesakes : Transaction :=
  .insertBatch (fun _ => true) namesakes .insert none

/-- Of two items with one name both are reported and one is added. -/
theorem insertion_adds_iff_namesakes :
    ∃ s',
      (insertNamesakes.program strict).run (Store.answer []) Batch.oneItem =
        (.ok (.str "Successfully added/updated 2 Items. 0 errors occurred."), s') ∧
      Shelf.Kept Batch.oneItem.shelf s'.shelf ∧
      (Shelf.added Batch.oneItem.shelf s'.shelf).ncard ≠ 2 := by
  have hresult : ((insertNamesakes.program strict).run (Store.answer []) Batch.oneItem).1 =
      .ok (.str "Successfully added/updated 2 Items. 0 errors occurred.") := by
    decide +kernel
  cases hrun : (insertNamesakes.program strict).run (Store.answer []) Batch.oneItem with
  | mk outcome s' =>
    rw [hrun] at hresult
    obtain rfl : outcome = _ := hresult
    have hbatch : insertNamesakes.batch? = some (.str "a", namesakes) := rfl
    obtain ⟨-, -, hown, -⟩ := insertion_adds_iff Store.recording strict rfl insertNamesakes
        rfl hbatch hrun
    have hcollection : ∀ item ∈ namesakes, ∃ collection,
        item.item "collection" = .ok (.str collection) ∧
        strict.naming.aliasOf collection = strict.naming.aliasOf "a" := by
      intro item hitem
      simp only [namesakes, mem_cons, not_mem_nil, or_false] at hitem
      rcases hitem with rfl | rfl <;> exact ⟨"a", rfl, rfl⟩
    obtain ⟨hkept, hcount⟩ := hown hcollection
    have hsame : ¬ (namesakes.map keyOf).Nodup := by decide +kernel
    exact ⟨s', rfl, hkept, fun htwo => hsame (hcount.mp htwo)⟩

end StacCatalog
