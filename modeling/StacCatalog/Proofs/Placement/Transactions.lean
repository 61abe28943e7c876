import StacCatalog.Proofs.Placement.Items

/-!
# Items stay where their content says through every orderly transaction
-/

namespace StacCatalog

open Program Database Items Transactions

variable {now : Time.Moment} {baseUrl : String} {valid : Json → Bool}

/-! ### Transactions -/

/-- A request that changes items. -/
inductive Transaction where
  | createItem (collection item : Json) (baseUrl : String) (refresh : Option Json)
  | updateItem (item : Json) (baseUrl : String) (refresh : Option Json)
  | insertBatch (valid : Json → Bool) (items : List Json) (method : BatchMethod)
      (refresh : Option Json)
  | patchItem (collection item : Json) (body : PatchBody) (request : Request)
  | deleteItem (collection item : Json) (refresh : Option Json)
  | createCollection (collection : Json) (request : Request) (refresh : Option Json)
  | deleteCollection (id : Json) (refresh : Option Json)

namespace Transaction

def program (ctx : Context) : Transaction → Program Json
  | .createItem collection item baseUrl refresh =>
    Transactions.createItem ctx collection item baseUrl refresh
  | .updateItem item baseUrl refresh => Transactions.updateItem ctx item baseUrl refresh
  | .insertBatch valid items method refresh =>
    Transactions.insertBatch ctx valid items method refresh
  | .patchItem collection item body request =>
    Transactions.patchItem ctx collection item body request
  | .deleteItem collection item refresh => do
    Items.delete ctx collection item refresh
    return .null
  | .createCollection collection request refresh =>
    Transactions.createCollection ctx collection request refresh
  | .deleteCollection id refresh => do
    Collections.delete ctx id refresh
    return .null

/-- The collection whose index a batch goes to, and the items of the batch. -/
def batch? : Transaction → Option (Json × List Json)
  | .createItem collection item _ _ =>
    if (item.field "type").same (.str "FeatureCollection") then
      match item.item "features" >>= Json.elements with
      | .ok features => some (collection, features)
      | .error _ => none
    else none
  | .insertBatch _ items _ _ => items.head?.map fun first => (first.field "collection", items)
  | _ => none

/-- Whether the items of a batch may exist already: the features of a collection may not. -/
def method : Transaction → BatchMethod
  | .insertBatch _ _ method _ => method
  | _ => .insert

/-- A transaction that leaves items where their content says. -/
def Orderly (n : Naming) (ids : Set String) (t : Transaction) : Prop :=
  match t.batch? with
  | some (collection, items) =>
    ∀ index, n.aliasFor collection = .ok index → ∀ item ∈ items, Belongs n ids index item
  | none =>
    match t with
    | .createItem _ item _ _ | .updateItem item _ _ => InUse ids item
    | .patchItem collection item body request =>
      ∀ ops, operationsOf body (Fields.getD request.headers "content-type") = some ops →
        Items.Orderly n ids collection item ops
    | _ => True

end Transaction

variable {n : Naming} {σ : Type} {db : Database n σ} {ids : Set String} {ctx : Context}
  {collection : Json} {refresh : Option Json} {item : Json} {items : List Json}

/-! ### Batches -/

/-- An item belongs where it belongs as it is stored. -/
theorem belongs_toStored {library : Library} {now : Time.Moment} {index : String}
    {item stored : Json} (h : Item.toStored library now item = .ok stored) :
    Belongs n ids index stored ↔ Belongs n ids index item := by
  unfold Belongs
  rw [Item.toStored_item h (by decide) (by decide)]

section Prepared

variable {answer : Answering σ} {Inv : σ → Prop} {Post : Json → Json → Prop}
    {existOk : Bool}

theorem keeps_prepareAll
    (hitem : ∀ item, Keeps answer Inv (prepareForBatch ctx item existOk) (Post item))
    (items : List Json) :
    Keeps answer Inv (prepareAll ctx existOk items) (List.Forall₂ Post items) := by
  induction items with
  | nil => exact .pure .nil
  | cons item rest ih =>
    exact (hitem item).bind fun stored hstored => ih.bind fun others hothers =>
      .pure (.cons hstored hothers)

theorem keeps_prepareValid
    (hitem : ∀ item, Keeps answer Inv (prepareForBatch ctx item existOk) (Post item))
    (valid : Json → Bool) (items : List Json) :
    Keeps answer Inv (prepareValid ctx valid existOk items) (List.Forall₂ Post items) := by
  induction items with
  | nil => exact .pure .nil
  | cons item rest ih =>
    cases item with
    | obj fields =>
      refine .liftM_bind fun _ _ => ?_
      split
      · exact .fail _
      · exact (hitem _).bind fun stored hstored => ih.bind fun others hothers =>
          .pure (.cons hstored hothers)
    | _ => exact .fail _

end Prepared

theorem keeps_bulk_prepared (hctx : ctx.naming = n) {mode : BulkMode} {items prepared : List Json}
    (hprepared : List.Forall₂
      (fun item stored => Item.toStored ctx.library ctx.now item = .ok stored) items prepared)
    (h : ∀ index, n.aliasFor collection = .ok index → ∀ item ∈ items, Belongs n ids index item) :
    Keeps db.answer (db.Placed ids) (bulk ctx mode collection (.arr prepared) refresh)
      fun _ => True := by
  refine keeps_bulk fun index hindex stored hstored => ?_
  rw [Context.aliasFor, hctx] at hindex
  obtain ⟨item, hitem, hto⟩ := exists_left_of_forall₂ hprepared hstored
  exact (belongs_toStored hto).mpr (h index hindex item hitem)

theorem keeps_createCollection (hctx : ctx.naming = n) (collection : Json) (refresh : Option Json) :
    Keeps db.answer (db.Placed ids) (Collections.create ctx collection refresh) fun _ => True := by
  have hindex (id refresh) : Keeps db.answer (db.Placed ids)
      (tell (.index ctx.naming.collections id collection refresh)) fun _ => True := by
    refine .tell fun s hs => hs.answer ?_
    rintro place key document hplace ⟨rfl, -⟩
    exact absurd (congrArg Naming.collections hctx) hplace
  refine .liftM_bind fun id _ => .liftM_bind fun refresh _ =>
    .bind (placed_quiet.keeps (.perform trivial)) fun found _ => ?_
  dsimp only
  split
  · exact .fail _
  · exact (hindex id refresh).bind fun _ _ => placed_quiet.keeps (spares_createIndex _ _ _).clearing

/-! ### Every transaction -/

variable {t : Transaction}

theorem orderly_batch (h : t.batch? = some (collection, items)) : t.Orderly n ids ↔
      ∀ index, n.aliasFor collection = .ok index → ∀ item ∈ items, Belongs n ids index item := by
  unfold Transaction.Orderly
  rw [h]

theorem batch?_features {collection item value : Json} {features : List Json}
    (htype : (item.field "type").same (.str "FeatureCollection") = true)
    (hvalue : item.item "features" = .ok value) (hfeatures : value.elements = .ok features) :
    (Transaction.createItem collection item baseUrl refresh).batch? =
      some (collection, features) := by
  simp only [Transaction.batch?, htype, if_true, hvalue, Outcome.ok_bind, hfeatures]

theorem keeps_createItem (hctx : ctx.naming = n) {collection item : Json}
    (h : (Transaction.createItem collection item baseUrl refresh).Orderly n ids) :
    Keeps db.answer (db.Placed ids) (createItem ctx collection item baseUrl refresh)
      fun _ => True := by
  refine .liftM_bind fun type htype => ?_
  rw [← Json.field_of_item htype]
  split
  · rename_i hfeature
    refine .liftM_bind fun value hvalue => .liftM_bind fun features hfeatures =>
      (keeps_prepareAll (keeps_prepareForBatch · false) features).bind fun prepared hprepared => ?_
    have hall := (orderly_batch (batch?_features hfeature hvalue hfeatures)).mp h
    exact (keeps_bulk_prepared hctx hprepared hall).bind fun _ _ => .liftM fun _ _ => trivial
  · rename_i hsingle
    have hnone : (Transaction.createItem collection item baseUrl refresh).batch? = none := by
      simp [Transaction.batch?, hsingle]
    unfold Transaction.Orderly at h
    rw [hnone] at h
    exact (keeps_create hctx h _ _).bind fun _ _ => .liftM fun _ _ => trivial

theorem keeps_updateItem (hctx : ctx.naming = n) (h : InUse ids item) :
    Keeps db.answer (db.Placed ids) (updateItem ctx item baseUrl refresh) fun _ => True := by
  refine .liftM_bind fun stamped hstamped => ?_
  have hinUse : InUse ids stamped := by
    intro text htext
    rw [Item.restamped_item hstamped (by decide)] at htext
    exact h text htext
  exact (keeps_create hctx hinUse _ _).bind fun _ _ => .liftM fun _ _ => trivial

theorem batch?_insertBatch {library : Library} {now : Time.Moment} {valid : Json → Bool}
    {items prepared : List Json} {method : BatchMethod} {first collection : Json}
    (hprepared :
      List.Forall₂ (fun item stored => Item.toStored library now item = .ok stored) items prepared)
    (hfirst : Json.nthInt prepared 0 = .ok first)
    (hcollection : first.item "collection" = .ok collection) :
    (Transaction.insertBatch valid items method refresh).batch? = some (collection, items) := by
  cases hprepared with
  | nil => cases hfirst
  | cons hstored _ =>
    cases hfirst
    rw [Item.toStored_item hstored (by decide) (by decide)] at hcollection
    simp [Transaction.batch?, Json.field_of_item hcollection]

theorem keeps_insertBatch (hctx : ctx.naming = n) {method : BatchMethod}
    (h : (Transaction.insertBatch valid items method refresh).Orderly n ids) :
    Keeps db.answer (db.Placed ids) (insertBatch ctx valid items method refresh) fun _ => True := by
  refine (keeps_prepareValid (keeps_prepareForBatch · _) valid items).bind fun prepared hprepared =>
    .liftM_bind fun first hfirst => .liftM_bind fun collection hcollection => ?_
  have hall := (orderly_batch (batch?_insertBatch hprepared hfirst hcollection)).mp h
  exact (keeps_bulk_prepared hctx hprepared hall).bind fun _ _ => .liftM fun _ _ => trivial

theorem keeps_patchItem (hctx : ctx.naming = n) (hapart : n.Apart) (hids : Set.InjOn n.aliasOf ids)
    {collection item : Json} {body : PatchBody} {request : Request}
    (h : (Transaction.patchItem collection item body request).Orderly n ids) :
    Keeps db.answer (db.Placed ids) (patchItem ctx collection item body request) fun _ => True := by
  unfold patchItem
  cases hops : operationsOf body (Fields.getD request.headers "content-type") with
  | none => exact .fail _
  | some ops =>
    refine (keeps_patch hctx hapart hids (h ops hops) _).bind fun patched _ => ?_
    split
    · exact .liftM fun _ _ => trivial
    · exact .fail _

/-- **One transaction.** An orderly transaction leaves items where their content says, however it
ends. -/
theorem keeps_program (hctx : ctx.naming = n) (hapart : n.Apart) (hids : Set.InjOn n.aliasOf ids)
    (h : t.Orderly n ids) : Keeps db.answer (db.Placed ids) (t.program ctx) fun _ => True := by
  cases t with
  | createItem collection item baseUrl refresh => exact keeps_createItem hctx h
  | updateItem item baseUrl refresh => exact keeps_updateItem hctx h
  | insertBatch valid items method refresh => exact keeps_insertBatch hctx h
  | patchItem collection item body request => exact keeps_patchItem hctx hapart hids h
  | deleteItem collection item refresh =>
    exact (keeps_delete collection item refresh).bind fun _ _ => .pure trivial
  | createCollection collection request refresh =>
    exact .liftM_bind fun stored _ => (keeps_createCollection hctx stored refresh).bind fun _ _ =>
      .liftM fun _ _ => trivial
  | deleteCollection collection refresh =>
    exact (placed_quiet.keeps (clears_deleteCollection collection refresh)).bind fun _ _ =>
      .pure trivial

end StacCatalog
