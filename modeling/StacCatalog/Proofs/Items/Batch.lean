import StacCatalog.Proofs.Placement.Runs
import StacCatalog.Proofs.Program.Traces

/-!
# A batch is checked in full before anything is written
-/

namespace StacCatalog

open Program List Outcome

variable {σ : Type} {time collection : String} {item : Json} {fault : Fault} {documents : List Json}

/-- A database that says truthfully whether a document is there, and is not changed by the question.
-/
def Truthful (answer : Answering σ) (has : σ → String → String → Bool) : Prop :=
  ∀ s index key, ∃ found, answer s (.exists index (.str key)) = (.value found, s) ∧
    found.truthy = has s index key

/-- The call only asks whether a document is there. -/
def Call.Question : Call → Prop
  | .exists .. => True
  | _ => False

theorem Call.isWrite_of_question {c : Call} (h : c.Question) : c.isWrite = false := by
  cases c with
  | «exists» index id => rfl
  | _ => cases h

theorem Truthful.asks_exists {answer : Answering σ} {has : σ → String → String → Bool}
    (hanswer : Truthful answer has) (s : σ) (index key : String) :
    ∃ found : Json, found.truthy = has s index key ∧
      Asks answer Call.Question (perform (.exists index (.str key))) s (.ok found) := by
  obtain ⟨found, hreply, htruthy⟩ := hanswer s index key
  exact ⟨found, htruthy, .perform trivial hreply⟩

/-! ### Items -/

/-- An item: it names itself and its collection, has properties, and its links can be resolved. -/
structure IsItem (library : Library) (item : Json) (id collection : String) : Prop where
  id_eq : item.item "id" = .ok (.str id)
  collection_eq : item.item "collection" = .ok (.str collection)
  properties : ∃ properties, item.item "properties" = .ok (.obj properties)
  links : ∃ links resolved, item.lookupD "links" (.arr []) = .ok links ∧
    library.resolveLinks links = .ok resolved

/-- The copy of a link is an object. -/
theorem Library.exists_obj_of_copyLink {link copy : Json} (h : copyLink link = .ok copy) :
    ∃ fields, copy = .obj fields := by
  cases link with
  | obj fields =>
    cases h
    exact ⟨_, rfl⟩
  | _ =>
    obtain ⟨parts, -, h⟩ := bind_eq_ok.mp h
    obtain ⟨entries, -, h⟩ := bind_eq_ok.mp h
    cases h
    exact ⟨_, rfl⟩

/-- A library that can resolve again the links that it has resolved. -/
def Library.Resolves (library : Library) : Prop :=
  ∀ links resolved, library.resolveLinks links = .ok resolved →
    ∃ again, library.resolveLinks (.arr resolved) = .ok again

theorem Library.resolves_plain : Library.plain.Resolves := by
  intro links copies h
  obtain ⟨parts, -, hcopies⟩ := bind_eq_ok.mp h
  refine exists_mapM fun copy hcopy => ?_
  obtain ⟨link, -, hlink⟩ := exists_left_of_forall₂ (mapM_eq_ok.mp hcopies) hcopy
  obtain ⟨fields, rfl⟩ := exists_obj_of_copyLink hlink
  exact ⟨_, rfl⟩

namespace Item

theorem exists_stampProperties (time : String) (properties : Fields) :
    ∃ stamped, stampProperties time (.obj properties) = .ok stamped := by
  unfold stampProperties
  cases hcreated : Fields.has properties "created" <;>
    exact ⟨_, by simp only [Json.contains, hcreated]; rfl⟩

theorem exists_toStored {library : Library} {now : Time.Moment} {time : String}
    (hnow : Time.nowText now = .ok time) {id : String} (h : IsItem library item id collection) :
    ∃ stored, toStored library now item = .ok stored := by
  obtain ⟨properties, hproperties⟩ := h.properties
  obtain ⟨links, copies, hlinks, hcopies⟩ := h.links
  cases item with
  | obj fields =>
    have hlinked : (Json.obj fields).setItem "links" (.arr copies) =
        .ok (.obj (Fields.insert fields "links" (.arr copies))) := rfl
    have hkept := Json.item_setItem hlinked "properties"
    rw [if_neg (by decide), hproperties] at hkept
    obtain ⟨stamped, hstamped⟩ := exists_stampProperties time properties
    unfold toStored
    simp only [hlinks, hcopies, hlinked, hnow, hkept, hstamped, ok_bind]
    exact ⟨_, rfl⟩
  | _ => cases h.id_eq

end Item

/-! ### What is wrong with an item -/

/-- A request to store a batch: items that are checked for their form, or the features of a
collection. -/
inductive Batch where
  | checked (method : Transactions.BatchMethod) (valid : Json → Bool) (items : List Json)
  | features (collection : String) (document : Json) (items : List Json)

namespace Batch

open Transactions

def program (ctx : Context) (baseUrl : String) (refresh : Option Json) : Batch → Program Json
  | .checked method valid items => insertBatch ctx valid items method refresh
  | .features collection document _ => createItem ctx (.str collection) document baseUrl refresh

def items : Batch → List Json
  | .checked _ _ items | .features _ _ items => items

/-- Whether the items of a batch may exist already. -/
def method : Batch → BatchMethod
  | .checked method _ _ => method
  | .features .. => .insert

/-- What is wrong with the form of an item, where it is checked. -/
def malformed (library : Library) : Batch → Json → Option Fault
  | .checked _ valid _, .obj fields =>
    match library.document fields with
    | .error fault => some fault
    | .ok _ => if valid (.obj fields) then none else some (.badModel "")
  | .checked .., _ => some (.wrongType "argument after ** must be a mapping")
  | .features .., _ => none

/-- What speaks against storing an item, by what is stored: its collection is not there, or the item
itself is there and a strict batch inserts it. -/
def misplaced (ctx : Context) (has : String → String → Bool) (method : BatchMethod)
    (id collection : String) : Option Fault :=
  if has ctx.naming.collections collection = false then some (.notFound (.parent (.str collection)))
  else if method = .insert ∧ ctx.raiseOnBulkError = true ∧
      has (ctx.naming.aliasOf collection) (Naming.documentId (.str id) (.str collection)) =
        true then
    some (.conflict (.batchItem (.str id) (.str collection)))
  else none

def textOf (item : Json) (name : String) : String :=
  ((item.field name).str?).getD ""

def offence (ctx : Context) (has : String → String → Bool) (batch : Batch) (item : Json) :
    Option Fault :=
  (batch.malformed ctx.library item).or (misplaced ctx has batch.method (textOf item "id")
    (textOf item "collection"))

/-- A batch of items: those of a good form are items, and a feature collection has them as its
features. -/
structure Proper (library : Library) (batch : Batch) : Prop where
  nonempty : batch.items ≠ []
  isItem : ∀ item ∈ batch.items, batch.malformed library item = none →
    ∃ id collection, IsItem library item id collection
  features : ∀ collection document items, batch = .features collection document items →
    document.item "type" = .ok (.str "FeatureCollection") ∧
      document.item "features" = .ok (.arr items)

/-- An item as it is stored, or what is wrong with it. -/
def ready (ctx : Context) (fault : Option Fault) (item : Json) : Outcome Json :=
  match fault with
  | some fault => .error fault
  | none => Item.toStored ctx.library ctx.now item

variable {answer : Answering σ} {has : σ → String → String → Bool} {ctx : Context} {s : σ}

theorem asks_checkCollection (hanswer : Truthful answer has) (collection : String) :
    Asks answer Call.Question (Items.checkCollection ctx (.str collection)) s
      (if has s ctx.naming.collections collection = false then
          .error (.notFound (.parent (.str collection))) else .ok ()) := by
  obtain ⟨found, htruthy, hasks⟩ := hanswer.asks_exists s ctx.naming.collections collection
  refine hasks.bind_ok ?_
  rw [htruthy]
  cases has s ctx.naming.collections collection with
  | false => exact .fail _
  | true => exact .liftM (.ok ())

theorem asks_taken (hanswer : Truthful answer has) {id : String}
    (hitem : IsItem ctx.library item id collection) :
    Asks answer Call.Question (Items.taken ctx item) s
      (.ok (has s (ctx.naming.aliasOf collection)
          (Naming.documentId (.str id) (.str collection)))) := by
  obtain ⟨found, htruthy, hasks⟩ := hanswer.asks_exists s (ctx.naming.aliasOf collection)
    (Naming.documentId (.str id) (.str collection))
  rw [← htruthy]
  exact .liftM_bind hitem.collection_eq
    (.liftM_bind rfl (.liftM_bind hitem.id_eq (hasks.bind_ok (.liftM (.ok _)))))

/-- **One item.** It is made ready unless something stored speaks against it. -/
theorem asks_prepareForBatch (hanswer : Truthful answer has) {id : String}
    (hitem : IsItem ctx.library item id collection) (method : BatchMethod) :
    Asks answer Call.Question (Items.prepareForBatch ctx item (method = .upsert)) s
      (ready ctx (misplaced ctx (has s) method id collection) item) := by
  have hparent : Asks answer Call.Question (Items.checkCollection ctx (.str collection)) s _ :=
      asks_checkCollection hanswer collection
  have htaken : Asks answer Call.Question (Items.taken ctx item) s _ := asks_taken hanswer hitem
  refine .liftM_bind hitem.id_eq (.liftM_bind hitem.collection_eq ?_)
  by_cases hstored : has s ctx.naming.collections collection = false
  · rw [if_pos hstored] at hparent
    rw [misplaced, if_pos hstored]
    exact hparent.bind_error
  rw [if_neg hstored] at hparent
  rw [misplaced, if_neg hstored]
  refine hparent.bind_ok ?_
  cases method with
  | upsert => exact .liftM _
  | insert =>
    refine htaken.bind_ok ?_
    cases has s (ctx.naming.aliasOf collection) (Naming.documentId (.str id) (.str collection)) with
    | false =>
      simp only [Bool.false_eq_true, and_false, if_false]
      exact .liftM _
    | true =>
      cases ctx.raiseOnBulkError with
      | true => exact .bind_error (.fail _)
      | false =>
        simp only [Bool.false_eq_true, false_and, and_false, if_false]
        exact .liftM _

/-! ### All items -/

theorem textOf_of_item {name text : String} (h : item.item name = .ok (.str text)) :
    textOf item name = text := by
  rw [textOf, Json.field_of_item h]
  rfl

theorem asks_cons {p : Program Json} {loop : Program (List Json)} {f : Json → Outcome Json}
    {rest : List Json} (hp : Asks answer Call.Question p s (f item))
    (hloop : Asks answer Call.Question loop s (rest.mapM f)) :
    Asks answer Call.Question (p >>= fun first => loop >>= fun others => pure (first :: others)) s
      ((item :: rest).mapM f) := by
  rw [mapM_cons]
  exact hp.bind fun first _ => hloop.bind fun others _ => .liftM (.ok (first :: others))

theorem asks_prepareAll (hanswer : Truthful answer has) {document : Json} {all items : List Json}
    (hitems : ∀ item ∈ items, ∃ id collection, IsItem ctx.library item id collection) :
    Asks answer Call.Question (prepareAll ctx false items) s
      (items.mapM
        fun item =>
          ready ctx ((features collection document all).offence ctx (has s) item) item) := by
  induction items with
  | nil => exact .liftM (.ok [])
  | cons item rest ih =>
    obtain ⟨id, parent, hitem⟩ := hitems item mem_cons_self
    refine asks_cons ?_ (ih fun item hmem => hitems item (mem_cons_of_mem _ hmem))
    rw [offence, textOf_of_item hitem.id_eq, textOf_of_item hitem.collection_eq]
    exact asks_prepareForBatch hanswer hitem .insert

theorem asks_prepareValid (hanswer : Truthful answer has) {method : BatchMethod}
    {valid : Json → Bool} {all items : List Json}
    (hitems : ∀ item ∈ items, (checked method valid all).malformed ctx.library item = none →
      ∃ id collection, IsItem ctx.library item id collection) :
    Asks answer Call.Question (prepareValid ctx valid (method = .upsert) items) s
      (items.mapM
        fun item => ready ctx ((checked method valid all).offence ctx (has s) item) item) := by
  induction items with
  | nil => exact .liftM (.ok [])
  | cons item rest ih =>
    have hrest := ih fun item hmem => hitems item (mem_cons_of_mem _ hmem)
    have hfirst := hitems item mem_cons_self
    cases item with
    | obj fields =>
      cases hmembers : ctx.library.document fields with
      | error fault =>
        rw [prepareValid, hmembers, mapM_cons, offence, malformed, hmembers]
        exact .fail fault
      | ok members =>
        rw [prepareValid, hmembers]
        cases hvalid : valid (.obj fields) with
        | false =>
          rw [mapM_cons, offence, malformed, hmembers, hvalid]
          exact .fail _
        | true =>
          have hform : (checked method valid all).malformed ctx.library (.obj fields) = none := by
            rw [malformed, hmembers, hvalid]
            rfl
          obtain ⟨id, parent, hitem⟩ := hfirst hform
          refine asks_cons ?_ hrest
          rw [offence, hform, textOf_of_item hitem.id_eq, textOf_of_item hitem.collection_eq]
          exact asks_prepareForBatch hanswer hitem method
    | _ => exact .fail _

section First

variable {offends : Json → Option Fault} {items : List Json}

theorem mapM_ready
    (hready : ∀ item ∈ items,
      offends item = none → ∃ stored, Item.toStored ctx.library ctx.now item = .ok stored) :
    items.mapM (fun item => ready ctx (offends item) item) =
      (items.findSome? offends).elim (items.mapM (Item.toStored ctx.library ctx.now)) .error := by
  induction items with
  | nil => rfl
  | cons item rest ih =>
    rw [findSome?_cons, mapM_cons, mapM_cons]
    cases hitem : offends item with
    | some fault => rfl
    | none =>
      obtain ⟨stored, hstored⟩ := hready item mem_cons_self hitem
      rw [ready, hstored, ok_bind, ok_bind, ih fun item hmem => hready item
        (mem_cons_of_mem _ hmem)]
      cases rest.findSome? offends <;> rfl

end First

/-! ### Whole batches -/

variable {batch : Batch} {baseUrl : String} {refresh : Option Json} {visible : Refresh}

/-- The items of a batch are made ready one after the other. -/
def prepared (ctx : Context) : Batch → Program (List Json)
  | .checked method valid items => prepareValid ctx valid (method = .upsert) items
  | .features _ _ items => prepareAll ctx false items

theorem asks_prepared (hanswer : Truthful answer has) (hbatch : batch.Proper ctx.library)
    (hnow : Time.nowText ctx.now = .ok time) :
    Asks answer Call.Question (batch.prepared ctx) s
      ((batch.items.findSome? (batch.offence ctx (has s))).elim
        (batch.items.mapM (Item.toStored ctx.library ctx.now)) .error) := by
  rw [← mapM_ready]
  rotate_left
  · intro item hitem hnone
    obtain ⟨id, collection, his⟩ := hbatch.isItem item hitem (Option.or_eq_none_iff.mp hnone).1
    exact Item.exists_toStored hnow his
  cases batch with
  | checked method valid items => exact asks_prepareValid hanswer hbatch.isItem
  | features collection document items =>
    exact asks_prepareAll hanswer fun item hitem => hbatch.isItem item hitem rfl

/-- What is done with the items that were made ready: they are sent in one call, and what comes of
it is told. -/
def sent (ctx : Context) (refresh : Option Json) (documents : List Json) : Batch → Program Json
  | .checked .. => do
    let collection ← (← Json.nthInt documents 0).item "collection"
    let (stored, _) ← Items.bulk ctx .blocking collection (.arr documents) refresh
    report "added/updated" documents.length stored
  | .features collection _ _ => do
    let (stored, _) ← Items.bulk ctx .concurrent (.str collection) (.arr documents) refresh
    report "added" documents.length stored

theorem program_eq (hbatch : batch.Proper ctx.library) :
    batch.program ctx baseUrl refresh =
      batch.prepared ctx >>= fun documents => batch.sent ctx refresh documents := by
  cases batch with
  | checked method valid items => rfl
  | features collection document items =>
    obtain ⟨htype, hfeatures⟩ := hbatch.features collection document items rfl
    have hcollection : (Json.str "FeatureCollection").same (.str "FeatureCollection") =
        true := by decide
    show createItem ctx (.str collection) document baseUrl refresh = _
    unfold createItem
    rw [htype, hfeatures]
    simp only [liftM_ok_bind, hcollection, if_true]
    rfl

/-- **All items in one call.** Items that were made ready are sent together, and nothing is asked
after it. -/
theorem endsWith_sent {items : List Json}
    (hitems : ∀ item ∈ items, ∃ id collection, IsItem ctx.library item id collection)
    (hready : items.mapM (Item.toStored ctx.library ctx.now) = .ok documents)
    (hsome : documents ≠ []) (hrefresh : ctx.refresh refresh = .ok visible) :
    ∃ mode actions,
      EndsWith answer Call.Question (batch.sent ctx refresh documents) s
        [.bulk mode actions visible ctx.raiseOnBulkError] ∧
      actions.length = documents.length := by
  have hnamed : ∀ document ∈ documents, ∃ id collection, document.item "id" = .ok (.str id) ∧
      document.item "collection" = .ok (.str collection) := by
    intro document hdocument
    obtain ⟨item, hitem, hstored⟩ := exists_left_of_forall₂ (mapM_eq_ok.mp hready) hdocument
    obtain ⟨id, collection, his⟩ := hitems item hitem
    refine ⟨id, collection, ?_, ?_⟩
    · rw [Item.toStored_item hstored (by decide) (by decide), his.id_eq]
    · rw [Item.toStored_item hstored (by decide) (by decide), his.collection_eq]
  have htruthy : (Json.arr documents).truthy = true := by simp [Json.truthy, hsome]
  have hlast (mode collection verb) : ∃ actions,
      EndsWith answer Call.Question
        (Items.bulk ctx mode (.str collection) (.arr documents) refresh >>=
          fun pair => (MonadLiftT.monadLift (report verb documents.length pair.1) : Program Json)) s
        [.bulk mode actions visible ctx.raiseOnBulkError] ∧
      actions.length = documents.length := by
    obtain ⟨actions, hactions⟩ : ∃ actions, Items.actions ctx (.str collection) (.arr documents) =
        .ok actions := by
      refine exists_mapM fun document hdocument => ?_
      obtain ⟨id, parent, hid, hparent⟩ := hnamed document hdocument
      exact ⟨_, by simp only [Items.action, hid, hparent, ok_bind]; rfl⟩
    obtain ⟨index, -, hall⟩ := Items.actions_eq_ok hactions
    refine ⟨actions, .bind ?_ fun pair => .liftM _, hall.length_eq.symm⟩
    unfold Items.bulk
    rw [hrefresh, htruthy, hactions]
    refine (EndsWith.perform _ s).bind fun reply => .liftM_bind fun pair _ => ?_
    dsimp only
    split
    · exact .liftM_bind fun _ _ => .pure _
    · exact .pure _
  -- The kinds of batches differ in where they find their collection.
  cases batch with
  | features collection document items =>
    obtain ⟨actions, hsent, hlength⟩ := hlast .concurrent collection "added"
    exact ⟨_, actions, hsent, hlength⟩
  | checked method valid items =>
    cases documents with
    | nil => exact absurd rfl hsome
    | cons first rest =>
      obtain ⟨id, collection, -, hcollection⟩ := hnamed first mem_cons_self
      obtain ⟨actions, hsent, hlength⟩ := hlast .blocking collection "added/updated"
      exact ⟨_, actions, .liftM_bind rfl (.liftM_bind hcollection hsent), hlength⟩

/-- **An item that offends.** A batch with one ends with what is wrong with the first, and nothing
was asked but whether documents are there. -/
theorem asks_of_offence (hanswer : Truthful answer has) (hbatch : batch.Proper ctx.library)
    (baseUrl : String) (refresh : Option Json) (hnow : Time.nowText ctx.now = .ok time)
    (hfirst : batch.items.findSome? (batch.offence ctx (has s)) = some fault) :
    Asks answer Call.Question (batch.program ctx baseUrl refresh) s (.error fault) := by
  have hprepared : Asks answer Call.Question (batch.prepared ctx) s _ :=
      asks_prepared hanswer hbatch hnow
  rw [hfirst] at hprepared
  rw [program_eq hbatch]
  exact hprepared.bind_error

/-- **No item that offends.** All items of the batch are written in one call, which is the last. -/
theorem endsWith_of_no_offence (hanswer : Truthful answer has) (hbatch : batch.Proper ctx.library)
    (baseUrl : String) (hnow : Time.nowText ctx.now = .ok time)
    (hrefresh : ctx.refresh refresh = .ok visible)
    (hnone : batch.items.findSome? (batch.offence ctx (has s)) = none) :
    ∃ mode actions,
      EndsWith answer Call.Question (batch.program ctx baseUrl refresh) s
        [.bulk mode actions visible ctx.raiseOnBulkError] ∧
      actions.length = batch.items.length := by
  have hitems : ∀ item ∈ batch.items, ∃ id collection, IsItem ctx.library item id collection :=
      fun item hitem =>
    hbatch.isItem item hitem
      (Option.or_eq_none_iff.mp (findSome?_eq_none_iff.mp hnone item hitem)).1
  obtain ⟨documents, hready⟩ : ∃ documents, batch.items.mapM (Item.toStored ctx.library ctx.now) =
      .ok documents := by
    refine exists_mapM fun item hitem => ?_
    obtain ⟨id, collection, his⟩ := hitems item hitem
    exact Item.exists_toStored hnow his
  have hprepared : Asks answer Call.Question (batch.prepared ctx) s _ :=
      asks_prepared hanswer hbatch hnow
  rw [hnone, Option.elim_none, hready] at hprepared
  have hlength := (mapM_eq_ok.mp hready).length_eq
  have hsome : documents ≠ [] := by
    intro hnil
    rw [hnil, length_nil, length_eq_zero_iff] at hlength
    exact hbatch.nonempty hlength
  obtain ⟨mode, actions, hsent, hactions⟩ := endsWith_sent hitems hready hsome hrefresh
  refine ⟨mode, actions, ?_, hactions.trans hlength.symm⟩
  rw [program_eq hbatch]
  exact .of_asks_bind hprepared hsent

/-- A run that raises a fault and has written nothing until then. -/
def RaisesUnwritten (answer : Answering σ) (p : Program Json) (s : σ) (fault : Fault)
    (t : σ) : Prop :=
  ∃ calls, Traces answer p s (.error fault) calls t ∧ ∀ c ∈ calls, c.isWrite = false

/-- **A batch is checked in full before anything is written.** It raises before any write exactly if
something is wrong with one of its items. Then the fault is that of the first such item, nothing was
asked but whether documents are there, and the database is as it was. Otherwise all items are
written in one call, the last. -/
theorem raises_unwritten_iff_offence (hanswer : Truthful answer has) (s : σ) (ctx : Context)
    (baseUrl : String) {refresh : Option Json} {visible : Refresh} {time : String}
    (hnow : Time.nowText ctx.now = .ok time) (hrefresh : ctx.refresh refresh = .ok visible)
    (batch : Batch) (hbatch : batch.Proper ctx.library) :
    ((∃ fault t, RaisesUnwritten answer (batch.program ctx baseUrl refresh) s fault t) ↔
      ∃ item ∈ batch.items, (batch.offence ctx (has s) item).isSome = true) ∧
    (∀ fault t, RaisesUnwritten answer (batch.program ctx baseUrl refresh) s fault t →
      batch.items.findSome? (batch.offence ctx (has s)) = some fault ∧ t = s ∧
      Asks answer Call.Question (batch.program ctx baseUrl refresh) s (.error fault)) ∧
    ((∀ item ∈ batch.items, batch.offence ctx (has s) item = none) →
      ∃ mode actions,
        EndsWith answer Call.Question (batch.program ctx baseUrl refresh) s
          [.bulk mode actions visible ctx.raiseOnBulkError] ∧
        actions.length = batch.items.length) := by
  have hraises : ∀ fault t, RaisesUnwritten answer (batch.program ctx baseUrl refresh) s fault t →
      batch.items.findSome? (batch.offence ctx (has s)) = some fault ∧ t = s ∧
        Asks answer Call.Question (batch.program ctx baseUrl refresh) s (.error fault) := by
    rintro fault t ⟨calls, htraces, hunwritten⟩
    cases hfirst : batch.items.findSome? (batch.offence ctx (has s)) with
    | some first =>
      obtain ⟨asked, hasked, hquestions⟩ :=
          asks_of_offence hanswer hbatch baseUrl refresh hnow hfirst
      obtain ⟨hfault, -, hstate⟩ := htraces.unique hasked
      cases hfault
      exact ⟨rfl, hstate, asked, hasked, hquestions⟩
    | none =>
      -- The last call of the run would be a write.
      obtain ⟨mode, actions, ⟨o, asked, u, hwritten, -⟩, -⟩ :=
        endsWith_of_no_offence hanswer hbatch baseUrl hnow hrefresh hfirst
      obtain ⟨-, rfl, -⟩ := htraces.unique hwritten
      have hbulk := hunwritten (.bulk mode actions visible ctx.raiseOnBulkError) (by simp)
      cases hbulk
  refine ⟨⟨?_, ?_⟩, hraises, fun hnone => ?_⟩
  · rintro ⟨fault, t, h⟩
    obtain ⟨item, hitem, hoffence⟩ := List.exists_of_findSome?_eq_some (hraises fault t h).1
    exact ⟨item, hitem, by rw [hoffence]; rfl⟩
  · intro hoffends
    obtain ⟨fault, hfirst⟩ := Option.isSome_iff_exists.mp (List.findSome?_isSome_iff.mpr hoffends)
    obtain ⟨calls, htraces, hquestions⟩ :=
        asks_of_offence hanswer hbatch baseUrl refresh hnow hfirst
    exact ⟨fault, s, calls, htraces, fun c hc => Call.isWrite_of_question (hquestions c hc)⟩
  · exact endsWith_of_no_offence hanswer hbatch baseUrl hnow hrefresh
      (List.findSome?_eq_none_iff.mpr hnone)

/-! ### The store -/

theorem truthful_store (refused : List String) :
    Truthful (Store.answer refused) fun s index key => (s.find? index (.str key)).isSome :=
  fun s index key => ⟨.bool (s.find? index (.str key)).isSome, rfl, rfl⟩

def oneItem : Store where
  documents := [("collections", [(.str "a", .single "id" (.str "a"))]),
    ("items_a", [(.str "x|a", itemOf "x" "a")])]
  indices := []

/-- A batch with a new item, the one that is there, and one of a collection that is not there. -/
def threeItems (method : BatchMethod) : Batch :=
  .checked method (fun _ => true) [itemOf "y" "a", itemOf "x" "a", itemOf "z" "b"]

theorem isItem_itemOf (id collection : String) :
    IsItem .plain (itemOf id collection) id collection where
  id_eq := rfl
  collection_eq := rfl
  properties := ⟨_, rfl⟩
  links := ⟨.arr [], [], rfl, rfl⟩

theorem proper_threeItems (method : BatchMethod) : (threeItems method).Proper .plain where
  nonempty := nofun
  isItem := by
    intro item hitem _
    simp only [threeItems, items, mem_cons, not_mem_nil, or_false] at hitem
    rcases hitem with rfl | rfl | rfl <;> exact ⟨_, _, isItem_itemOf _ _⟩
  features := nofun

/-- A strict insertion stops at the item that is there, an update of all three at the item without a
collection. -/
theorem raises_unwritten_iff_offence_three :
    (∃ fault t,
      RaisesUnwritten (Store.answer [])
        ((threeItems .insert).program { noon with raiseOnBulkError := true } "" none) oneItem fault
        t ∧
      fault = .conflict (.batchItem (.str "x") (.str "a")) ∧ t = oneItem) ∧
    ∃ fault t,
      RaisesUnwritten (Store.answer []) ((threeItems .upsert).program noon "" none) oneItem fault
        t ∧
      fault = .notFound (.parent (.str "b")) ∧ t = oneItem := by
  have hchecked (ctx : Context) (method : BatchMethod) {time : String} {visible : Refresh}
      (hnow : Time.nowText ctx.now = .ok time) (hrefresh : ctx.refresh none = .ok visible)
      (hlibrary : ctx.library = .plain) :=
    raises_unwritten_iff_offence (truthful_store []) oneItem ctx "" hnow hrefresh
      (threeItems method)
      (hlibrary ▸ proper_threeItems method)
  constructor
  · obtain ⟨hiff, hfirst, -⟩ := hchecked { noon with raiseOnBulkError := true } .insert rfl rfl rfl
    obtain ⟨fault, t, hraises⟩ := hiff.mpr ⟨itemOf "x" "a", by decide, by decide⟩
    obtain ⟨hfault, ht, -⟩ := hfirst fault t hraises
    exact ⟨fault, t, hraises, Option.some.inj (hfault.symm.trans (by decide)), ht⟩
  · obtain ⟨hiff, hfirst, -⟩ := hchecked noon .upsert rfl rfl rfl
    obtain ⟨fault, t, hraises⟩ := hiff.mpr ⟨itemOf "z" "b", by decide, by decide⟩
    obtain ⟨hfault, ht, -⟩ := hfirst fault t hraises
    exact ⟨fault, t, hraises, Option.some.inj (hfault.symm.trans (by decide)), ht⟩

end Batch

end StacCatalog
