import StacCatalog.Api.Browse
import StacCatalog.Proofs.Cluster.Catalog
import StacCatalog.Proofs.Cluster.Items
import StacCatalog.Proofs.Json.Faults

/-!
# Requests about single documents, and what they mean
-/

namespace StacCatalog

open Outcome Json Collection Item

variable {library : Library} {now : Time.Moment}

/-- A request about one collection or one item. -/
inductive Act where
  | createCollection (c : String) (body : Json) (r : Request) (refresh : Option Json)
  | updateCollection (c : String) (body : Json) (r : Request) (refresh : Option Json)
  | deleteCollection (c : String) (refresh : Option Json)
  | getCollection (portal : Portal) (c : String) (r : Request)
  | createItem (c i : String) (item : Json) (baseUrl : String) (refresh : Option Json)
  | updateItem (c i : String) (item : Json) (baseUrl : String) (refresh : Option Json)
  | deleteItem (c i : String) (refresh : Option Json)
  | getItem (c i : String) (r : Request)

/-! ### Meanings -/

/-- Stores an item in a collection that is there, unless it must be new and is not. -/
def Catalog.writeItem (m : Catalog) (ctx : Context) (existOk : Bool) (c i : String) (item : Json)
    (baseUrl : String) : Outcome Json × Catalog :=
  match m c with
  | none => (.error (.notFound (.parent (.str c))), m)
  | some h =>
    if !existOk && (h.items i).isSome then (.error (.conflict (.item (.str i) (.str c))), m)
    else
      match Item.toStored ctx.library ctx.now item with
      | .error fault => (.error fault, m)
      | .ok stored => (Item.ofStored ctx.library baseUrl stored, m.put c i h (some stored))

namespace Act

def program (ctx : Context) : Act → Program Json
  | .createCollection _ body r refresh => Transactions.createCollection ctx body r refresh
  | .updateCollection c body r refresh => Transactions.updateCollection ctx (.str c) body r refresh
  | .deleteCollection c refresh => do
    Collections.delete ctx (.str c) refresh
    return .null
  | .getCollection portal c r => Browse.collection ctx portal (.str c) r
  | .createItem c _ item baseUrl refresh =>
    Transactions.createItem ctx (.str c) item baseUrl refresh
  | .updateItem _ _ item baseUrl refresh => Transactions.updateItem ctx item baseUrl refresh
  | .deleteItem c i refresh => do
    Items.delete ctx (.str c) (.str i) refresh
    return .null
  | .getItem c i r => Browse.item ctx (.str c) (.str i) r

/-- What a request answers, and the catalogue afterwards. -/
def meaning (ctx : Context) (m : Catalog) : Act → Outcome Json × Catalog
  | .createCollection c body r _ =>
    match toStored ctx.library body, m c with
    | .error fault, _ => (.error fault, m)
    | .ok _, some _ => (.error (.conflict (.collection (.str c))), m)
    | .ok stored, none =>
      (ofStored ctx.library r [] stored, Function.update m c (some ⟨stored, fun _ => none⟩))
  | .updateCollection c body r _ =>
    match toStored ctx.library body, m c with
    | .error fault, _ => (.error fault, m)
    | .ok _, none => (.error (.notFound (.collection (.str c))), m)
    | .ok stored, some h =>
      (ofStored ctx.library r [] stored, Function.update m c (some { h with document := stored }))
  | .deleteCollection c _ =>
    match m c with
    | none => (.error (.notFound (.collection (.str c))), m)
    | some _ => (.ok .null, Function.update m c none)
  | .getCollection portal c r =>
    match m c with
    | none => (.error (.notFound (.collection (.str c))), m)
    | some h => (ofStored ctx.library r portal.extensions h.document, m)
  | .createItem c i item baseUrl _ => m.writeItem ctx false c i item baseUrl
  | .updateItem c i item baseUrl _ =>
    match Item.restamped ctx.now item with
    | .error fault => (.error fault, m)
    | .ok item => m.writeItem ctx true c i item baseUrl
  | .deleteItem c i _ =>
    match m c with
    | none => (.error (.notFound (.deleted (.str i) (.str c))), m)
    | some h =>
      if (h.items i).isSome then (.ok .null, m.put c i h none)
      else (.error (.notFound (.deleted (.str i) (.str c))), m)
  | .getItem c i r =>
    match (m c).bind fun h => h.items i with
    | none => (.error (.notFound (.item (.str i) (.str c))), m)
    | some document => (Item.ofStored ctx.library r.baseUrl document, m)

/-- A request whose body carries its ids, about a collection in use. -/
def Proper (ids : Set String) (ctx : Context) : Act → Prop
  | .createCollection c body _ refresh | .updateCollection c body _ refresh =>
    c ∈ ids ∧ body.item "id" = .ok (.str c) ∧ ∃ visible, ctx.refresh refresh = .ok visible
  | .deleteCollection c refresh | .deleteItem c _ refresh =>
    c ∈ ids ∧ ∃ visible, ctx.refresh refresh = .ok visible
  | .getCollection _ c _ | .getItem c _ _ => c ∈ ids
  | .createItem c i item _ refresh =>
    c ∈ ids ∧ item.item "collection" = .ok (.str c) ∧ item.item "id" = .ok (.str i) ∧
      (∃ type, item.item "type" = .ok type ∧ type.same (.str "FeatureCollection") = false) ∧
      ∃ visible, ctx.refresh refresh = .ok visible
  | .updateItem c i item _ refresh =>
    c ∈ ids ∧ item.item "collection" = .ok (.str c) ∧ item.item "id" = .ok (.str i) ∧
      ∃ visible, ctx.refresh refresh = .ok visible

end Act

namespace Item

theorem created_stampProperties {time : String} {properties stamped created : Json}
    (h : stampProperties time properties = .ok stamped)
    (hcreated : properties.item "created" = .ok created) :
    stamped.item "created" = .ok created := by
  unfold stampProperties at h
  rw [contains_of_item hcreated] at h
  rw [item_setItem h, if_neg (by decide), hcreated]

theorem created_toStored {item stored created : Json} (h : toStored library now item = .ok stored)
    (hcreated : (item.field "properties").item "created" = .ok created) :
    (stored.field "properties").item "created" = .ok created := by
  obtain ⟨_, _, _, _, _, -, hproperties, hstamped, hitem⟩ := of_toStored h
  rw [field_of_item hproperties] at hcreated
  rw [field_of_item (hitem "properties")]
  exact created_stampProperties hstamped hcreated

theorem created_restamped {item stamped created : Json} (h : restamped now item = .ok stamped)
    (hcreated : (item.field "properties").item "created" = .ok created) :
    (stamped.field "properties").item "created" = .ok created := by
  obtain ⟨utc, -, h⟩ := bind_eq_ok.mp h
  obtain ⟨given, hgiven, h⟩ := bind_eq_ok.mp h
  obtain ⟨properties, hproperties, h⟩ := bind_eq_ok.mp h
  have hnew : stamped.item "properties" = .ok properties := by rw [item_setItem h, if_pos rfl]
  rw [field_of_item hgiven] at hcreated
  rw [field_of_item hnew, item_setItem hproperties, if_neg (by decide), hcreated]

end Item

variable {act : Act}

/-! ### Each request -/

namespace Cluster

open Program

variable {σ : Type} {cl : Cluster σ} {ctx : Context} {ids : Set String} {home c i : String}
    {v : Contents} {m : Catalog}
  {r : Request} {body item : Json} {baseUrl : String} {refresh : Option Json} {visible : Refresh}

/-- A program answers what it should, and the cluster holds the catalogue it should. -/
def Follows (cl : Cluster σ) (n : Naming) (ids : Set String) (home : String) (p : Program Json)
    (v : Contents) (result : Outcome Json × Catalog) : Prop :=
  ∃ w, cl.Runs p v result.1 w ∧ Reflects n ids home w result.2

variable (h : Reflects ctx.naming ids home v m) (hids : Set.InjOn ctx.naming.aliasOf ids)
  (hapart : ∀ c ∈ ids, ctx.naming.aliasOf c ≠ ctx.naming.collections) (hc : c ∈ ids)

include h hc

theorem follows_getCollection (portal : Portal) (r : Request) :
    cl.Follows ctx.naming ids home (Browse.collection ctx portal (.str c) r) v
      ((Act.getCollection portal c r).meaning ctx m) := by
  have hfind := runs_findCollection cl h.addressed c
  rw [h.collections c hc] at hfind
  cases hm : m c <;> rw [hm] at hfind <;> simp only [Act.meaning, hm]
  · exact ⟨v, .bind_error hfind, h⟩
  · exact ⟨v, .bind hfind (.liftM _), h⟩

theorem follows_getItem (i : String) (r : Request) :
    cl.Follows ctx.naming ids home (Browse.item ctx (.str c) (.str i) r) v
      ((Act.getItem c i r).meaning ctx m) := by
  cases hm : m c with
  | none =>
    simp only [Act.meaning, hm, Option.bind_none]
    refine ⟨v, .bind_error
      (.liftM_bind rfl (.bind_error (.perform_absent (fun _ _ hallows => ?_) _))), h⟩
    exact hallows.1 (h.absent c hc hm).2
  | some held =>
    obtain ⟨-, hsole, hitems⟩ := h.present c hc held hm
    have hfind : cl.Runs (Items.find ctx (.str c) (.str i)) v _ v :=
        .liftM_bind rfl (.read hsole _ _)
    rw [hitems] at hfind
    simp only [Act.meaning, hm, Option.bind_some]
    cases hitem : held.items i <;> rw [hitem] at hfind
    · exact ⟨v, .bind_error hfind, h⟩
    · exact ⟨v, .bind hfind (.liftM _), h⟩

variable (hrefresh : ctx.refresh refresh = .ok visible)

include hapart hrefresh

theorem follows_updateCollection (hid : body.item "id" = .ok (.str c)) (r : Request) :
    cl.Follows ctx.naming ids home (Transactions.updateCollection ctx (.str c) body r refresh) v
      ((Act.updateCollection c body r refresh).meaning ctx m) := by
  cases hstored : toStored ctx.library body with
  | error fault =>
    simp only [Act.meaning, hstored]
    exact ⟨v, .bind_error (hstored ▸ .liftM _), h⟩
  | ok stored =>
    have hid' : stored.item "id" = .ok (.str c) := (toStored_item hstored (by decide)).trans hid
    have hfind := runs_findCollection cl h.addressed c
    rw [h.collections c hc] at hfind
    cases hm : m c <;> rw [hm] at hfind <;> simp only [Act.meaning, hstored, hm]
    case none => exact ⟨v, .liftM_bind hstored
      (.bind_error (.liftM_bind hrefresh (.bind_error hfind))), h⟩
    case some held =>
      have hsame : (Json.str c).same (.str c) = true := by simp [Json.same]
      have hupdate : cl.Runs (Collections.update ctx (.str c) stored refresh) v (.ok ())
          (v.set home c (some stored)) := by
        refine .liftM_bind hrefresh (.bind hfind (.liftM_bind hid' ?_))
        rw [hsame]
        exact .store h.addressed stored
      exact ⟨_, .liftM_bind hstored (.bind hupdate (.liftM _)), h.setDocument hapart hc hm stored⟩

theorem follows_deleteItem (i : String) :
    cl.Follows ctx.naming ids home ((Act.deleteItem c i refresh).program ctx) v
      ((Act.deleteItem c i refresh).meaning ctx m) := by
  cases hm : m c with
  | none =>
    simp only [Act.meaning, hm]
    refine ⟨v, .bind_error
      (.liftM_bind hrefresh (.liftM_bind rfl (.tell_absent (fun _ _ hallows => ?_) _))), h⟩
    exact hallows.1 (h.absent c hc hm).2
  | some held =>
    obtain ⟨-, hsole, hitems⟩ := h.present c hc held hm
    cases hitem : held.items i with
    | none =>
      simp only [Act.meaning, hm, hitem]
      refine ⟨v, .bind_error
        (.liftM_bind hrefresh (.liftM_bind rfl (.tell_absent (fun _ _ hallows => ?_) _))), h⟩
      have hremoved := hallows.2 _ _ hsole rfl
      rw [hitems, hitem] at hremoved
      exact hremoved
    | some document =>
      simp only [Act.meaning, hm, hitem]
      refine ⟨_, .bind (.liftM_bind hrefresh (.liftM_bind rfl (.orMissing (.remove hsole ?_) _)))
        (.pure _), h.setItem hapart hc hm i none⟩
      rw [hitems, hitem, Option.isSome_some]

theorem follows_writeItem (hcollection : item.item "collection" = .ok (.str c))
    (hid : item.item "id" = .ok (.str i)) (existOk : Bool) (baseUrl : String) :
    cl.Follows ctx.naming ids home
      (do
        let stored ← Items.create ctx item existOk refresh
        Item.ofStored ctx.library baseUrl stored) v
      (m.writeItem ctx existOk c i item baseUrl) := by
  have hheld := h.collections c hc
  cases hm : m c with
  | none =>
    rw [hm] at hheld
    have hcheck := runs_checkCollection cl h.addressed c
    rw [hheld] at hcheck
    simp only [Catalog.writeItem, hm]
    exact ⟨v, .bind_error (runs_createItem_error hcollection hid hrefresh
      (.liftM_bind hcollection (.bind_error hcheck))), h⟩
  | some held =>
    obtain ⟨-, hsole, hitems⟩ := h.present c hc held hm
    have hparent : (v.held home c).isSome = true := by rw [hheld, hm]; rfl
    have hprepare := runs_prepare hcollection cl hid h.addressed hparent hsole existOk
    rw [hitems] at hprepare
    simp only [Catalog.writeItem, hm]
    split
    · rename_i htaken
      rw [if_pos htaken] at hprepare
      exact ⟨v, .bind_error (runs_createItem_error hcollection hid hrefresh hprepare), h⟩
    · rename_i hfree
      rw [if_neg hfree] at hprepare
      cases hstored : Item.toStored ctx.library ctx.now item <;> rw [hstored] at hprepare
      case error fault => exact ⟨v,
        .bind_error (runs_createItem_error hcollection hid hrefresh hprepare), h⟩
      case ok stored =>
        refine ⟨_, .bind (.liftM_bind hid
          (.liftM_bind hcollection (.liftM_bind hrefresh (.bind hprepare ?_)))) (.liftM _),
          h.setItem hapart hc hm i (some stored)⟩
        exact .liftM_bind rfl (.bind (.store hsole stored) (.pure stored))

include hids

theorem follows_createCollection (hid : body.item "id" = .ok (.str c)) (r : Request) :
    cl.Follows ctx.naming ids home (Transactions.createCollection ctx body r refresh) v
      ((Act.createCollection c body r refresh).meaning ctx m) := by
  have hheld := h.collections c hc
  cases hstored : toStored ctx.library body with
  | error fault =>
    simp only [Act.meaning, hstored]
    exact ⟨v, .bind_error (hstored ▸ .liftM _), h⟩
  | ok stored =>
    have hid' : stored.item "id" = .ok (.str c) := (toStored_item hstored (by decide)).trans hid
    cases hm : m c with
    | some held =>
      have hsome : (v.held home c).isSome = true := by rw [hheld, hm]; rfl
      simp only [Act.meaning, hstored, hm]
      refine ⟨v, .liftM_bind hstored (.bind_error (.liftM_bind hid' (.liftM_bind hrefresh ?_))), h⟩
      refine .exists_bind h.addressed fun found htruthy => ?_
      rw [htruthy, hsome]
      exact .fail _
    | none =>
      rw [hm] at hheld
      have hcreate := runs_createCollection cl h.addressed hid' hrefresh hheld (h.absent c hc hm).1
      simp only [Act.meaning, hstored, hm]
      exact ⟨_, .liftM_bind hstored (.bind hcreate (.liftM _)), h.create hids hapart hc hm stored⟩

theorem follows_deleteCollection :
    cl.Follows ctx.naming ids home ((Act.deleteCollection c refresh).program ctx) v
      ((Act.deleteCollection c refresh).meaning ctx m) := by
  cases hm : m c with
  | none =>
    have hfind := runs_findCollection cl h.addressed c
    rw [h.collections c hc, hm] at hfind
    simp only [Act.meaning, hm]
    refine ⟨v, .bind_error ?_, h⟩
    unfold Collections.delete
    cases ctx.backend with
    | elasticsearch => exact .liftM_bind hrefresh (.bind_error hfind)
    | opensearch => exact .bind_error hfind
  | some held =>
    have hsome : (v.held home c).isSome = true := by rw [h.collections c hc, hm]; rfl
    obtain ⟨-, hsole, -⟩ := h.present c hc held hm
    have hdelete := runs_deleteCollection cl h.addressed hrefresh hsome ((hsole _).mpr rfl)
    simp only [Act.meaning, hm]
    exact ⟨_, .bind hdelete (.pure _), h.delete hids hapart hc hm⟩

omit h hc hids hapart hrefresh

/-- Every request answers what it means, and leaves the catalogue it means. -/
theorem follows_program {n : Naming} (hn : ctx.naming = n) (h : Reflects n ids home v m)
    (hids : Set.InjOn n.aliasOf ids) (hapart : ∀ c ∈ ids, n.aliasOf c ≠ n.collections)
    (hproper : act.Proper ids ctx) :
    cl.Follows n ids home (act.program ctx) v (act.meaning ctx m) := by
  subst hn
  cases act with
  | createCollection c body r refresh =>
    obtain ⟨hc, hid, visible, hrefresh⟩ := hproper
    exact follows_createCollection h hids hapart hc hrefresh hid r
  | updateCollection c body r refresh =>
    obtain ⟨hc, hid, visible, hrefresh⟩ := hproper
    exact follows_updateCollection h hapart hc hrefresh hid r
  | deleteCollection c refresh =>
    obtain ⟨hc, visible, hrefresh⟩ := hproper
    exact follows_deleteCollection h hids hapart hc hrefresh
  | getCollection portal c r => exact follows_getCollection h hproper portal r
  | createItem c i item baseUrl refresh =>
    obtain ⟨hc, hcollection, hid, ⟨type, htype, hsame⟩, visible, hrefresh⟩ := hproper
    obtain ⟨w, hruns, hw⟩ := follows_writeItem h hapart hc hrefresh hcollection hid false baseUrl
    refine ⟨w, .liftM_bind htype ?_, hw⟩
    rwa [hsame]
  | updateItem c i item baseUrl refresh =>
    obtain ⟨hc, hcollection, hid, visible, hrefresh⟩ := hproper
    simp only [Act.program, Act.meaning, Transactions.updateItem]
    cases hstamped : Item.restamped ctx.now item with
    | error fault => exact ⟨v, .bind_error (.liftM _), h⟩
    | ok stamped =>
      have hcollection' := (restamped_item hstamped (by decide)).trans hcollection
      have hid' := (restamped_item hstamped (by decide)).trans hid
      exact follows_writeItem h hapart hc hrefresh hcollection' hid' true baseUrl
  | deleteItem c i refresh =>
    obtain ⟨hc, visible, hrefresh⟩ := hproper
    exact follows_deleteItem h hapart hc hrefresh i
  | getItem c i r => exact follows_getItem h hproper i r

end Cluster

/-! ### Sequences of requests -/

namespace Act

/-- Runs requests one after the other, each in its own context; their answers, and the state
afterwards. -/
def runAll {σ : Type} (answer : Answering σ) :
    List (Context × Act) → σ → List (Outcome Json) × σ
  | [], s => ([], s)
  | (ctx, act) :: rest, s =>
    let (outcome, s) := (act.program ctx).run answer s
    let (outcomes, s) := runAll answer rest s
    (outcome :: outcomes, s)

def meaningAll : List (Context × Act) → Catalog → List (Outcome Json) × Catalog
  | [], m => ([], m)
  | (ctx, act) :: rest, m =>
    let (outcome, m) := act.meaning ctx m
    let (outcomes, m) := meaningAll rest m
    (outcome :: outcomes, m)

/-- A request that is refused, because something is not there or is already there, changes nothing.
-/
theorem meaning_of_report {ctx : Context} (hlibrary : ctx.library.Silent) {m : Catalog}
    {fault : Fault} (h : (act.meaning ctx m).1 = .error fault) (hreport : fault.isReport = true) :
    (act.meaning ctx m).2 = m := by
  have hitem : ∀ baseUrl document, Item.ofStored ctx.library baseUrl document ≠ .error fault :=
    fun baseUrl document heq =>
      Bool.false_ne_true ((Silent.itemAnswer hlibrary baseUrl document fault heq).symm.trans
        hreport)
  have hcollection : ∀ r document, ofStored ctx.library r [] document ≠ .error fault :=
    fun r document heq =>
      Bool.false_ne_true ((Silent.collectionAnswer hlibrary r [] document fault heq).symm.trans
        hreport)
  have hwrite : ∀ existOk c i item baseUrl,
      (m.writeItem ctx existOk c i item baseUrl).1 = .error fault →
      (m.writeItem ctx existOk c i item baseUrl).2 = m := by
    intro existOk c i item baseUrl h
    unfold Catalog.writeItem at h ⊢
    grind
  cases act with
  | createItem c i item baseUrl refresh => exact hwrite _ _ _ _ _ h
  | _ =>
    unfold meaning at h ⊢
    grind

end Act

namespace Cluster

variable {σ : Type} {n : Naming} {ids : Set String} {home : String}
    {requests : List (Context × Act)} {s : σ}
  {m : Catalog}

theorem follows_runAll (cl : Cluster σ) (hids : Set.InjOn n.aliasOf ids)
    (hapart : ∀ c ∈ ids, n.aliasOf c ≠ n.collections)
    (hrequests : ∀ request ∈ requests, request.1.naming = n ∧ request.2.Proper ids request.1)
    (h : Reflects n ids home (cl.contents s) m) :
    (Act.runAll cl.answer requests s).1 = (Act.meaningAll requests m).1 ∧
    Reflects n ids home (cl.contents (Act.runAll cl.answer requests s).2)
      (Act.meaningAll requests m).2 := by
  induction requests generalizing s m with
  | nil => exact ⟨rfl, h⟩
  | cons request rest ih =>
    obtain ⟨ctx, act⟩ := request
    obtain ⟨hn, hproper⟩ := hrequests _ List.mem_cons_self
    obtain ⟨w, hruns, hw⟩ := follows_program hn h hids hapart hproper
    obtain ⟨t, ht, rfl⟩ := hruns s rfl
    obtain ⟨houtcomes, hstate⟩ :=
        ih (fun request hrequest => hrequests request (List.mem_cons_of_mem _ hrequest)) hw
    simp only [Act.runAll, Act.meaningAll, ht]
    exact ⟨congrArg _ houtcomes, hstate⟩

/-- **The catalogue is a map of maps.** In a cluster that holds a catalogue, any requests about
single collections and items are answered as on the map of collections to their items, and leave the
cluster with the map that they leave. A request that is refused, because something is not there or
is already there, leaves the map as it was; and an item keeps the time of creation that it is given
with. -/
theorem requests_follow_catalog (cl : Cluster σ) (hids : Set.InjOn n.aliasOf ids)
    (hapart : ∀ c ∈ ids, n.aliasOf c ≠ n.collections)
    (hrequests : ∀ request ∈ requests, request.1.naming = n ∧ request.2.Proper ids request.1)
    (h : Reflects n ids home (cl.contents s) m) :
    (Act.runAll cl.answer requests s).1 = (Act.meaningAll requests m).1 ∧
    Reflects n ids home (cl.contents (Act.runAll cl.answer requests s).2)
      (Act.meaningAll requests m).2 ∧
    (∀ ctx m fault, ∀ act : Act,
      ctx.library.Silent → (act.meaning ctx m).1 = .error fault → fault.isReport = true →
      (act.meaning ctx m).2 = m) ∧
    ∀ library now stored created, ∀ item : Json,
      (item.field "properties").item "created" = .ok created →
      (Item.toStored library now item = .ok stored ∨
        (Item.restamped now item >>= Item.toStored library now) = .ok stored) →
      (stored.field "properties").item "created" = .ok created := by
  obtain ⟨houtcomes, hstate⟩ := follows_runAll cl hids hapart hrequests h
  refine ⟨houtcomes, hstate, fun ctx m fault act hlibrary => Act.meaning_of_report hlibrary, ?_⟩
  rintro library now stored created item hcreated (hstored | hstored)
  · exact created_toStored hstored hcreated
  · obtain ⟨stamped, hstamped, hstored⟩ := Outcome.bind_eq_ok.mp hstored
    exact created_toStored hstored (created_restamped hstamped hcreated)

def started : Registry :=
  ((Indices.createCollections noon).run Registry.answer .empty).2

def comingAndGoing : List Act :=
  [.createItem "a" "x" (itemOf "x" "a") "" none,
   .createCollection "a" (.single "id" (.str "a")) default none,
   .createItem "a" "x" (itemOf "x" "a") "" none,
   .createItem "a" "x" (itemOf "x" "a") "" none,
   .updateItem "a" "x" (itemOf "x" "a") "" none,
   .getItem "a" "x" default,
   .deleteCollection "a" none,
   .getItem "a" "x" default,
   .createCollection "a" (.single "id" (.str "a")) default none,
   .getItem "a" "x" default]

theorem reflects_started :
    Reflects .standard {"a", "b"} "collections-000001" started.contents fun _ => none where
  addressed := Registry.sole_of_owners (by decide +kernel)
  collections := by
    rintro c (rfl | rfl)
    · decide +kernel
    · decide +kernel
  absent := by
    rintro c (rfl | rfl) -
    · exact ⟨by decide +kernel, Registry.unused_of_owners (by decide +kernel)⟩
    · exact ⟨by decide +kernel, Registry.unused_of_owners (by decide +kernel)⟩
  present c hc held hm := nomatch hm

/-- The item is refused before its collection is there and when it is there itself, is read while it
is there, and is gone with its collection. -/
theorem requests_follow_catalog_coming_and_going :
    (Act.runAll Registry.cluster.answer (comingAndGoing.map fun act => (noon, act)) started).1.map
        Except.isOk = [false, true, true, false, true, true, true, false, true, false] := by
  have hitem : (Act.createItem "a" "x" (itemOf "x" "a") "" none).Proper {"a", "b"} noon :=
    ⟨.inl rfl, rfl, rfl, ⟨_, rfl, rfl⟩, .later, rfl⟩
  have hupdate : (Act.updateItem "a" "x" (itemOf "x" "a") "" none).Proper {"a", "b"} noon :=
    ⟨.inl rfl, rfl, rfl, .later, rfl⟩
  have hread : (Act.getItem "a" "x" default).Proper {"a", "b"} noon := .inl rfl
  have hcreate :
      (Act.createCollection "a" (.single "id" (.str "a")) default none).Proper {"a", "b"} noon :=
    ⟨.inl rfl, rfl, .later, rfl⟩
  have hdelete : (Act.deleteCollection "a" none).Proper {"a", "b"} noon := ⟨.inl rfl, .later, rfl⟩
  have hrequests : ∀ request ∈ comingAndGoing.map fun act => (noon, act),
      request.1.naming = .standard ∧ request.2.Proper {"a", "b"} request.1 := by
    intro request hrequest
    obtain ⟨act, hact, rfl⟩ := List.mem_map.mp hrequest
    refine ⟨rfl, ?_⟩
    simp only [comingAndGoing, List.mem_cons, List.not_mem_nil, or_false] at hact
    rcases hact with rfl | rfl | rfl | rfl | rfl | rfl | rfl | rfl | rfl | rfl
    exacts [hitem, hcreate, hitem, hitem, hupdate, hread, hdelete, hread, hcreate, hread]
  have hapart :
      ∀ c ∈ ({"a", "b"} : Set String), Naming.standard.aliasOf c ≠ Naming.standard.collections := by
    rintro c (rfl | rfl) <;> decide
  rw [(requests_follow_catalog Registry.cluster injOn_aliasOf hapart hrequests reflects_started).1]
  decide +kernel

end Cluster

end StacCatalog
