import StacCatalog.Proofs.Items.Update
import StacCatalog.Proofs.Placement.Collections

/-!
# Patches that move an item
-/

namespace StacCatalog

open List Naming StacCatalog.Shelf

variable {path : String} {old document : Json} {op : Patch.Operation} {ops : List Patch.Operation}
  {r : Items.Relocation}

/-- A database that moves an item from one collection to another takes it to the place of its id
there, and does nothing else. -/
def Database.Lands {n : Naming} {σ : Type} (db : Database n σ) (library : Library)
    (source target item : String) : Prop :=
  ∀ s document, db.shelf s (n.aliasOf source) (documentId (.str item) (.str source)) =
    some document → IsItem library document item source → ∃ moved,
      db.shelf (db.answer s (.reindex ⟨.str source, .str target, some (.str item), .bool true⟩)).2 =
        (db.shelf s).set (n.aliasOf target) (documentId (.str item) (.str target)) (some moved)

namespace Items

open Program

variable {n : Naming} {σ : Type} {db : Database n σ} {ctx : Context} {s : σ}

/-! ### What is asked first -/

/-- The first of the collections that operations move an item to that is not stored. -/
def missingParent (has : String → Bool) (collection : Json) (ops : List Patch.Operation) :
    Option Json :=
  ((ops.filter (changes "collection" collection)).map Patch.Operation.value).find? fun value =>
    !value.str?.any has

theorem missingParent_cons (has : String → Bool) (collection : Json) (op : Patch.Operation)
    (rest : List Patch.Operation) :
    missingParent has collection (op :: rest) =
      if changes "collection" collection op && !op.value.str?.any has then some op.value
        else missingParent has collection rest := by
  unfold missingParent
  rw [filter_cons]
  cases changes "collection" collection op with
  | false => rfl
  | true =>
    rw [if_pos rfl, map_cons, find?_cons]
    cases op.value.str?.any has <;> rfl

/-- The operations that say where an item is to be say so by texts. -/
def NamesTexts (ops : List Patch.Operation) : Prop :=
  ∀ op ∈ ops, relocates op = true → ∃ text, op.value = .str text

theorem relocates_of_changes (hpath : path = "collection" ∨ path = "id")
    (h : changes path old op = true) : relocates op = true := by
  unfold changes at h
  unfold relocates
  rcases hpath with rfl | rfl <;> grind

/-- Telling the operations apart asks for the new collections, and ends at the first that is not
stored. -/
theorem asks_relocation {answer : Answering σ} {has : σ → String → String → Bool}
    (hanswer : Truthful answer has) (collection item : Json) (htexts : NamesTexts ops)
    (r : Relocation) :
    Asks answer Call.Question (relocation ctx collection item r ops) s
      (match missingParent (has s ctx.naming.collections) collection ops with
        | some parent => .error (.notFound (.parent parent))
        | none => .ok (r.through collection item ops)) := by
  induction ops generalizing r with
  | nil =>
    have hthrough : r.through collection item [] = r := by simp [Relocation.through, lastSet]
    rw [hthrough]
    exact .liftM (.ok r)
  | cons op rest ih =>
    have hrest := ih (fun op hop => htexts op (mem_cons_of_mem _ hop)) (r.after collection item op)
    rw [relocation_cons, Relocation.through_cons, missingParent_cons]
    cases hchanges : changes "collection" collection op with
    | false => exact hrest
    | true =>
      obtain ⟨text, hvalue⟩ := htexts op mem_cons_self (relocates_of_changes (.inl rfl) hchanges)
      have hcheck : Asks answer Call.Question (checkCollection ctx (.str text)) s _ :=
        Batch.asks_checkCollection hanswer text
      simp only [hvalue, if_true, Bool.true_and, Json.str?, Option.any_some]
      cases hstored : has s ctx.naming.collections text with
      | false =>
        rw [if_pos hstored] at hcheck
        exact hcheck.bind_error
      | true =>
        rw [if_neg (by rw [hstored]; decide)] at hcheck
        exact hcheck.bind_ok hrest

/-! ### Patches that only move -/

theorem content_of_moves (collection item : Json) (hmoves : ∀ op ∈ ops, relocates op = true) :
    (Relocation.through collection item ops {}).content = [] := by
  simp only [Relocation.through, nil_append, filter_eq_nil_iff]
  intro op hop
  rw [hmoves op hop]
  decide

/-- What a patch ends with that only moves an item: a collection that is not stored, or no script to
run. -/
def moveFault (has : String → Bool) (collection : Json) (ops : List Patch.Operation) : Fault :=
  match missingParent has collection ops with
  | some parent => .notFound (.parent parent)
  | none => .unset "source"

/-- **Nothing but a move.** Such a patch fails, however the database answers. -/
theorem run_patch_of_moves (answer : Answering σ) (s : σ) (collection item refresh : Json)
    (hmoves : ∀ op ∈ ops, relocates op = true) :
    ∃ fault t, (patch ctx collection item ops refresh).run answer s = (.error fault, t) := by
  have hreloc : Keeps answer (fun _ => True) (relocation ctx collection item {} ops)
      (· = Relocation.through collection item ops {}) :=
        keeps_through (fun _ _ _ h => h) collection item ops {}
  cases hrun : (patch ctx collection item ops refresh).run answer s with
  | mk outcome t =>
    cases outcome with
    | error fault => exact ⟨fault, t, rfl⟩
    | ok result =>
      obtain ⟨r, u, hrelocation, hrun⟩ := run_bind_eq_ok.mp hrun
      obtain ⟨-, rfl⟩ := hreloc.of_run trivial hrelocation
      obtain ⟨script, hscript, -⟩ := run_liftM_bind_eq_ok.mp hrun
      rw [content_of_moves collection item hmoves] at hscript
      cases hscript

/-- On a database that tells what is there, nothing was asked but whether collections are. -/
theorem asks_patch_of_moves {answer : Answering σ} {has : σ → String → String → Bool}
    (hanswer : Truthful answer has) (collection item refresh : Json) (htexts : NamesTexts ops)
    (hmoves : ∀ op ∈ ops, relocates op = true) :
    Asks answer Call.Question (patch ctx collection item ops refresh) s
      (.error (moveFault (has s ctx.naming.collections) collection ops)) := by
  have hreloc : Asks answer Call.Question (relocation ctx collection item {} ops) s _ :=
    asks_relocation hanswer collection item htexts {}
  unfold moveFault
  cases hmissing : missingParent (has s ctx.naming.collections) collection ops with
  | some parent =>
    rw [hmissing] at hreloc
    exact hreloc.bind_error
  | none =>
    rw [hmissing] at hreloc
    refine hreloc.bind_ok ?_
    rw [content_of_moves collection item hmoves]
    exact .bind_error (.fail _)

theorem documentId_ne_of_collection {i c c' : String} (h : c' ≠ c) :
    documentId (.str i) (.str c') ≠ documentId (.str i) (.str c) := by
  intro heq
  have hchars := congrArg String.toList heq
  simp only [documentId, Json.display, String.toList_append, append_cancel_left_eq] at hchars
  exact h (String.toList_inj.mp hchars)

def Relocation.target (r : Relocation) (collection : Json) : Json :=
  if r.collection.truthy then r.collection else collection

def Relocation.name (r : Relocation) (item : Json) : Json :=
  if r.item.truthy then r.item else item

section Runs

variable (hdb : db.Exact) (htruthful : Truthful db.answer fun s index key =>
    (db.shelf s index key).isSome)
  (hstores : db.StoresAll) (hctx : ctx.naming = n) (hlibrary : ctx.library.Resolves) {time : String}
    (hnow : Time.nowText ctx.now = .ok time)

include hdb htruthful hstores hctx hlibrary hnow

theorem exists_run_rename {old own item new : String}
    (hdocument : IsItem ctx.library document old own)
    (hparent : (db.shelf s n.collections own).isSome = true)
    (hthere : (db.shelf s (n.aliasOf own) (documentId (.str item) (.str own))).isSome = true)
    (hfree : db.shelf s (n.aliasOf own) (documentId (.str new) (.str own)) = none)
    (refresh : Bool) :
    ∃ stored t,
      (rename ctx (.str own) (.str item) (.str new) document (.bool refresh)).run db.answer s =
        (.ok stored, t) ∧
      IsItem ctx.library stored new own := by
  subst hctx
  obtain ⟨renamed, hset⟩ := hdocument.exists_setItem "id" (.str new)
  have hrenamed : IsItem ctx.library renamed new own := hdocument.setItem hset (by decide)
  obtain ⟨prepared, htoStored⟩ := Item.exists_toStored hnow hrenamed
  have hprepared : IsItem ctx.library prepared new own :=
      Item.isItem_toStored hlibrary hrenamed htoStored
  obtain ⟨stored, hstored⟩ := Item.exists_toStored hnow hprepared
  have hfree' : (db.shelf s (ctx.naming.aliasOf own) (documentId (.str new) (.str own))).isSome =
      false := by
    rw [hfree]
    rfl
  have hprepare : Asks db.answer Call.Question (prepare ctx renamed false) s _ :=
    Transactions.asks_prepare htruthful hrenamed (.inr hfree')
  rw [if_neg (by rw [hparent]; decide), htoStored] at hprepare
  have hrefresh : ctx.refresh (some (.bool true)) = .ok _ := rfl
  obtain ⟨t, hcreate, hshelf⟩ := Transactions.exists_run_create hdb htruthful hstores hrefresh
      hprepared hstored hparent
    (.inr hfree')
  have hstill : (db.shelf t (ctx.naming.aliasOf own) (documentId (.str item) (.str own))).isSome =
      true := by
    rw [hshelf]
    exact isSome_set hthere _ _ _
  obtain ⟨u, hdelete, -⟩ := @run_delete_of_isSome _ _ _ ctx t hdb rfl own (.str item) refresh hstill
  refine ⟨stored, u, ?_, Item.isItem_toStored hlibrary hprepared hstored⟩
  unfold rename
  rw [hset, liftM_ok_bind, run_bind_ok hprepare.run_eq, run_bind_ok hcreate, run_bind_ok hdelete]
  rfl

theorem exists_run_named {own i : String} (hdocument : IsItem ctx.library document i own)
    (hready : r.item.truthy = true →
      ∃ new, r.item = .str new ∧ (db.shelf s n.collections own).isSome = true ∧
        (db.shelf s (n.aliasOf own) (documentId (.str i) (.str own))).isSome = true ∧
        db.shelf s (n.aliasOf own) (documentId (.str new) (.str own)) = none)
    (refresh : Bool) :
    ∃ result t,
      (if r.item.truthy then rename ctx (.str own) (.str i) r.item document (.bool refresh)
        else (pure document : Program Json)).run db.answer s = (.ok result, t) ∧
      result.item "id" = .ok (r.name (.str i)) ∧ result.item "collection" = .ok (.str own) := by
  cases hname : r.item.truthy with
  | false =>
    rw [Relocation.name, hname]
    exact ⟨document, s, rfl, hdocument.id_eq, hdocument.collection_eq⟩
  | true =>
    obtain ⟨new, hnew, hparent, hthere, hfree⟩ := hready hname
    obtain ⟨stored, t, hrun, his⟩ :=
      exists_run_rename hdb htruthful hstores hctx hlibrary hnow hdocument hparent hthere
        hfree refresh
    rw [Relocation.name, hname, hnew]
    exact ⟨stored, t, hrun, his.id_eq, his.collection_eq⟩

theorem exists_run_settle (hapart : n.Apart) {c i : String}
    (hdocument : IsItem ctx.library document i c)
    (hthere : db.shelf s (n.aliasOf c) (documentId (.str i) (.str c)) = some document)
    (hparent : (db.shelf s n.collections c).isSome = true)
    (hmoves : r.collection.truthy = true →
      ∃ target,
        r.collection = .str target ∧ target ≠ c ∧ (db.shelf s n.collections target).isSome = true)
    (hnames : r.item.truthy = true → ∃ new, r.item = .str new ∧ new ≠ i)
    (hfree : r.item.truthy = true →
      ∀ target new, r.target (.str c) = .str target → r.item = .str new →
        db.shelf s (n.aliasOf target) (documentId (.str new) (.str target)) = none)
    (hlands : r.collection.truthy = true → r.item.truthy = true →
      ∀ target, r.collection = .str target → db.Lands ctx.library c target i)
    (refresh : Bool) :
    ∃ result t,
      (settle ctx (.str c) (.str i) r document (.bool refresh)).run db.answer s = (.ok result, t) ∧
      result.item "id" = .ok (r.name (.str i)) ∧
      result.item "collection" = .ok (r.target (.str c)) := by
  have hsome : (db.shelf s (n.aliasOf c) (documentId (.str i) (.str c))).isSome = true := by
    rw [hthere, Option.isSome_some]
  unfold settle
  unfold Relocation.target at hfree ⊢
  cases hmove : r.collection.truthy with
  | false =>
    simp only [hmove, Bool.false_eq_true, if_false] at hfree ⊢
    rw [run_bind_ok (run_pure _)]
    refine exists_run_named hdb htruthful hstores hctx hlibrary hnow hdocument
      (fun hname => ?_) refresh
    obtain ⟨new, hnew, -⟩ := hnames hname
    exact ⟨new, hnew, hparent, hsome, hfree hname c new rfl hnew⟩
  | true =>
    obtain ⟨target, htarget, hother, hstored⟩ := hmoves hmove
    simp only [hmove, if_true] at hfree ⊢
    rw [htarget]
    obtain ⟨moved, hset⟩ := hdocument.exists_setItem "collection" (.str target)
    have hmoved : IsItem ctx.library moved i target := hdocument.setItem hset (by decide)
    obtain ⟨t, hrun, hshelf⟩ := run_moveTo_of_isSome hdb hctx hset refresh hsome
    rw [run_bind_ok hrun]
    refine exists_run_named hdb htruthful hstores hctx hlibrary hnow hmoved
      (fun hname => ?_) refresh
    obtain ⟨new, hnew, hnewer⟩ := hnames hname
    -- The item is now at its place in the other collection and no longer at its old one.
    obtain ⟨landed, hlanded⟩ := hlands hmove hname target htarget s document hthere hdocument
    rw [hlanded] at hshelf
    refine ⟨new, hnew, ?_, ?_, ?_⟩
    · have hplace : ¬ (n.collections = n.aliasOf c ∧ target = documentId (.str i) (.str c)) :=
        fun h => hapart _ h.1.symm
      rw [hshelf, set_of_ne hplace]
      exact isSome_set hstored _ _ _
    · rw [hshelf, set_of_ne fun h => documentId_ne_of_collection hother h.2,
        set_self, Option.isSome_some]
    · have hplace : ¬ (n.aliasOf target = n.aliasOf target ∧
          documentId (.str new) (.str target) = documentId (.str i) (.str target)) :=
        fun h => hnewer (documentId_inj.mp h.2)
      rw [hshelf]
      by_cases hhere : n.aliasOf target = n.aliasOf c ∧
          documentId (.str new) (.str target) = documentId (.str i) (.str c)
      · rw [hhere.1, hhere.2, set_self]
      · rw [set_of_ne hhere, set_of_ne hplace, hfree hname target new htarget hnew]

end Runs

/-! ### Patches of the content, too -/

theorem exists_text_of_lastSet (hpath : path = "collection" ∨ path = "id") {old : String}
    (htexts : NamesTexts ops) (h : (lastSet path (.str old) ops .null).truthy = true) :
    ∃ text, lastSet path (.str old) ops .null = .str text ∧ text ≠ old ∧
      ∃ op ∈ ops, changes path (.str old) op = true ∧ op.value = .str text := by
  obtain ⟨op, hop, hchanges, hvalue⟩ := exists_of_lastSet h
  obtain ⟨text, htext⟩ := htexts op hop (relocates_of_changes hpath hchanges)
  refine ⟨text, hvalue.trans htext, ?_, op, hop, hchanges, htext⟩
  rintro rfl
  rw [changes, htext, Json.same_str.mpr rfl, Bool.not_true, Bool.and_false] at hchanges
  cases hchanges

theorem stored_of_missingParent {has : String → Bool} {collection : Json}
    (h : missingParent has collection ops = none) (hop : op ∈ ops)
    (hchanges : changes "collection" collection op = true) {text : String}
    (hvalue : op.value = .str text) : has text = true := by
  have hmem : op.value ∈ (ops.filter (changes "collection" collection)).map Patch.Operation.value :=
    mem_map_of_mem (mem_filter.mpr ⟨hop, hchanges⟩)
  have hstored := find?_eq_none.mp h _ hmem
  rw [hvalue] at hstored
  simpa [Json.str?] using hstored

/-- All that a patch needs to move an item: the item, its collection and the new ones are stored, no
document has the new id, and what operations on the content there are make a script that the
database can run on the item. -/
structure Movable (library : Library) (db : Database n σ) (s : σ) (c i : String)
    (ops : List Patch.Operation) (r : Relocation) : Prop where
  there : (db.shelf s (n.aliasOf c) (documentId (.str i) (.str c))).isSome = true
  parent : (db.shelf s n.collections c).isSome = true
  targets : missingParent (fun text => (db.shelf s n.collections text).isSome) (.str c) ops = none
  free : r.item.truthy = true → ∀ target new, r.target (.str c) = .str target → r.item = .str new →
    db.shelf s (n.aliasOf target) (documentId (.str new) (.str target)) = none
  /-- The item is given its new id at the place that it was moved to. -/
  lands : r.collection.truthy = true → r.item.truthy = true → ∀ target, r.collection = .str target →
    db.Lands library c target i
  runs : r.content ≠ [] → ∃ script reply, Patch.script r.content = .ok script ∧
    (db.answer s (.update (n.aliasOf c) (.str (documentId (.str i) (.str c))) script)).1 =
      .value reply ∧
    ∀ old document, db.shelf s (n.aliasOf c) (documentId (.str i) (.str c)) = some old →
      db.run script old = some document → IsItem library document i c

/-- **A move along with a change.** If there is an operation on the content, the item is moved and
given its new id. -/
theorem exists_run_patch (hdb : db.Exact)
    (htruthful : Truthful db.answer fun s index key => (db.shelf s index key).isSome)
    (hstores : db.StoresAll) (hapart : n.Apart) (hctx : ctx.naming = n)
    (hlibrary : ctx.library.Resolves) {time : String} (hnow : Time.nowText ctx.now = .ok time)
    {c i : String} (htexts : NamesTexts ops) (hr : r = Relocation.through (.str c) (.str i) ops {})
    (hmovable : Movable ctx.library db s c i ops r) (hcontent : r.content ≠ []) (refresh : Bool) :
    ∃ result t,
      (patch ctx (.str c) (.str i) ops (.bool refresh)).run db.answer s = (.ok result, t) ∧
      result.item "id" = .ok (r.name (.str i)) ∧
      result.item "collection" = .ok (r.target (.str c)) := by
  have hreloc : Asks db.answer Call.Question (relocation ctx (.str c) (.str i) {} ops) s _ :=
    asks_relocation htruthful (.str c) (.str i) htexts {}
  rw [hctx, hmovable.targets, ← hr] at hreloc
  obtain ⟨script, reply, hscript, hreply, hruns⟩ := hmovable.runs hcontent
  have hupdate := (run_tell_eq_ok (u := ())).mpr ⟨reply, hreply, rfl⟩
  rcases shelf_of_update hdb hupdate with ⟨hnone, -⟩ | ⟨old, document, hold, hdocument, hset⟩
  · have hthere := hmovable.there
    rw [hnone] at hthere
    cases hthere
  obtain ⟨v, hfind, hread⟩ := exists_run_find hdb hctx (hset ▸ set_self _ _ _ _)
  have hshelf := hread.trans hset
  have hstill : ∀ {index key},
      (db.shelf s index key).isSome = true → (db.shelf v index key).isSome = true := by
    intro index key hsome
    rw [hshelf]
    exact isSome_set hsome _ _ _
  refine (exists_run_settle hdb htruthful hstores hctx hlibrary hnow hapart
    (hruns old document hold hdocument)
    (by rw [hshelf, set_self]) (hstill hmovable.parent) (fun hmoves => ?_) (fun hnames => ?_)
    (fun hnames target new htarget hnew => ?_) hmovable.lands refresh).imp
      fun result => Exists.imp fun t => And.imp_left fun hrun => ?_
  · rw [hr] at hmoves ⊢
    obtain ⟨target, htarget, hother, op, hop, hchanges, hvalue⟩ :=
        exists_text_of_lastSet (.inl rfl) htexts hmoves
    exact ⟨target, htarget, hother,
      hstill (stored_of_missingParent hmovable.targets hop hchanges hvalue)⟩
  · rw [hr] at hnames ⊢
    obtain ⟨new, hnew, hother, -⟩ := exists_text_of_lastSet (.inr rfl) htexts hnames
    exact ⟨new, hnew, hother⟩
  · -- The item is at its old place, so the new one is another.
    have hfree := hmovable.free hnames target new htarget hnew
    rw [hshelf, set_of_ne, hfree]
    rintro ⟨hindex, hkey⟩
    have hthere := hmovable.there
    rw [← hindex, ← hkey, hfree] at hthere
    cases hthere
  · subst hctx
    unfold patch
    rw [run_bind_ok hreloc.run_eq, hscript, liftM_ok_bind]
    exact (run_bind_ok (run_orRefused_eq_ok.mpr hupdate)).trans ((run_bind_ok hfind).trans hrun)

/-- **Only a move that changes the content is made.** A patch of operations that set the id and the
collection of an item, and of no others, fails however the database answers. If the database tells
what is there, nothing is written: the fault is a new collection that is not stored, or that there
is no script to run. And if the item can be moved, a patch goes through exactly if it has an
operation on the content, and then the item has its new id and its new collection. -/
theorem patch_moves_iff_content (db : Database n σ) (hdb : db.Exact)
    (htruthful : Truthful db.answer fun s index key => (db.shelf s index key).isSome)
    (hstores : db.StoresAll) (hapart : n.Apart) (hctx : ctx.naming = n)
    (hlibrary : ctx.library.Resolves) {time : String} (hnow : Time.nowText ctx.now = .ok time)
    (s : σ) (c i : String) (ops : List Patch.Operation) (refresh : Bool) {r : Relocation}
    (hr : r = Relocation.through (.str c) (.str i) ops {}) :
    ((∀ op ∈ ops, relocates op = true) → ∀ answer : Answering σ,
      ∃ fault t,
        (patch ctx (.str c) (.str i) ops (.bool refresh)).run answer s = (.error fault, t)) ∧
    (NamesTexts ops →
      ((∀ op ∈ ops, relocates op = true) →
        Asks db.answer Call.Question (patch ctx (.str c) (.str i) ops (.bool refresh)) s
          (.error (moveFault (fun text => (db.shelf s n.collections text).isSome) (.str c) ops))) ∧
      (Movable ctx.library db s c i ops r →
        ((∃ result t,
              (patch ctx (.str c) (.str i) ops (.bool refresh)).run db.answer s = (.ok result, t)) ↔
          ∃ op ∈ ops, relocates op = false) ∧
        ∀ result t,
          (patch ctx (.str c) (.str i) ops (.bool refresh)).run db.answer s = (.ok result, t) →
          result.item "id" = .ok (r.name (.str i)) ∧
          result.item "collection" = .ok (r.target (.str c)))) := by
  have hfails (hmoves : ∀ op ∈ ops, relocates op = true) (answer : Answering σ) :
      ∃ fault t,
      (patch ctx (.str c) (.str i) ops (.bool refresh)).run answer s = (.error fault, t) :=
    run_patch_of_moves answer s (.str c) (.str i) (.bool refresh) hmoves
  have hsome : ∀ result t,
      (patch ctx (.str c) (.str i) ops (.bool refresh)).run db.answer s = (.ok result, t) →
      ∃ op ∈ ops, relocates op = false := by
    intro result t hrun
    by_contra hnone
    obtain ⟨fault, u, herror⟩ := hfails (by simpa using hnone) db.answer
    rw [herror] at hrun
    cases hrun
  have hcontent : (∃ op ∈ ops, relocates op = false) ↔ r.content ≠ [] := by
    rw [hr]
    simp [Relocation.through]
  refine ⟨hfails, fun htexts => ⟨fun hmoves => ?_, fun hmovable => ?_⟩⟩
  · subst hctx
    exact asks_patch_of_moves htruthful (.str c) (.str i) (.bool refresh) htexts hmoves
  have hgoes (h : ∃ op ∈ ops, relocates op = false) :=
    exists_run_patch hdb htruthful hstores hapart hctx hlibrary hnow htexts hr hmovable
      (hcontent.mp h) refresh
  refine ⟨⟨fun h => ?_, fun h => ?_⟩, fun result t hrun => ?_⟩
  · obtain ⟨result, t, hrun⟩ := h
    exact hsome result t hrun
  · obtain ⟨result, t, hrun, -⟩ := hgoes h
    exact ⟨result, t, hrun⟩
  · obtain ⟨result', t', hrun', hnamed⟩ := hgoes (hsome result t hrun)
    rw [hrun'] at hrun
    cases hrun
    exact hnamed

end Items

/-! ### A store that moves items -/

namespace Store

variable {n : Naming} {s : Store}

/-- The store after a move of one item: its document is copied to the other collection, under the
name that the move gives it. -/
def relocate (n : Naming) (s : Store) (move : Move) : Store :=
  match move.item with
  | none => s
  | some item =>
    let name := documentId item move.source
    match s.find? (n.items ++ move.source.display) (.str name) with
    | none => s
    | some old =>
      match old.item "id", old.setItem "collection" (.str move.target.display) with
      | .ok id, .ok document =>
        if id.display = item.display then s.put (n.items ++ move.target.display)
          (.str (move.renamed name)) document else s
      | _, _ => s

theorem relocate_cases (s : Store) (move : Move) :
    s.relocate n move = s ∨
    ∃ name old document, s.shelf (n.items ++ move.source.display) name = some old ∧ move.Takes old ∧
      old.setItem "collection" (.str move.target.display) = .ok document ∧
      s.relocate n move =
        s.put (n.items ++ move.target.display) (.str (move.renamed name)) document := by
  unfold relocate
  split
  · exact .inl rfl
  rename_i item hitem
  dsimp only
  split
  · exact .inl rfl
  rename_i old hold
  split
  · rename_i id document hid hdocument
    split
    · rename_i hsame
      refine .inr ⟨_, old, document, hold, fun other hother => ⟨id, hid, ?_⟩, hdocument, rfl⟩
      rw [hitem] at hother
      cases hother
      exact hsame
    · exact .inl rfl
  · exact .inl rfl

/-- Answers a call, and carries out moves of single items. -/
def answerMoving (n : Naming) (s : Store) : Call → Reply × Store
  | .reindex move => (.value (.obj []), s.relocate n move)
  | c => s.answer [] c

theorem found_moving {c : Call} {index key : String}
    (h : (s.answerMoving n c).2.shelf index key = some document) :
    s.shelf index key = some document ∨
    c.Writes n (fun _ document => some document) s.shelf index key document := by
  cases c with
  | reindex move =>
    rcases relocate_cases s move with hsame | ⟨name, old, moved, hold, htakes, hset, hput⟩
    · rw [answerMoving, hsame] at h
      exact .inl h
    · rw [answerMoving, hput, shelf_put] at h
      by_cases hplace : index = n.items ++ move.target.display ∧ key = move.renamed name
      · obtain ⟨rfl, rfl⟩ := hplace
        rw [set_self] at h
        cases h
        exact .inr fun _ => ⟨rfl, name, old, hold, htakes, rfl, hset⟩
      · rw [set_of_ne hplace] at h
        exact .inl h
  | _ => exact (database n []).found h

def moving (n : Naming) : Database n Store where
  answer := answerMoving n
  shelf := shelf
  run _ document := some document
  found := found_moving
  readable := (database n []).readable
  read := (database n []).read
  untouched := (database n []).untouched

theorem exact_moving (n : Naming) : (moving n).Exact where
  failed {s c} h := by
    cases c with
    | reindex move => exact absurd rfl (h _)
    | _ => exact (exact_database n).failed h
  asked := (exact_database n).asked
  got := (exact_database n).got
  updated := (exact_database n).updated
  indexed := @Database.Exact.indexed _ _ (database n []) (exact_database n)
  deleted := @Database.Exact.deleted _ _ (database n []) (exact_database n)
  moved s move := by
    refine ⟨⟨_, rfl⟩, fun index key hsome => ?_⟩
    show ((s.relocate n move).shelf index key).isSome = true
    rcases relocate_cases s move with hsame | ⟨name, old, moved, -, -, -, hput⟩
    · rwa [hsame]
    · rw [hput, shelf_put]
      exact isSome_set hsome _ _ _
  object := @Database.Exact.object _ _ (database n []) (exact_database n)
  conflict {s c fault} h := by
    cases c with
    | reindex move => cases h
    | _ => exact (exact_database n).conflict h

/-- An item lands at the place of its id if its name, with one collection replaced by the other, is
the name of that place. -/
theorem lands_moving (library : Library) {source target item : String}
    (hsource : clean source = source) (htarget : clean target = target)
    (hrenamed : Move.renamed ⟨.str source, .str target, some (.str item), .bool true⟩
        (documentId (.str item) (.str source)) = documentId (.str item) (.str target)) :
    (moving n).Lands library source target item := by
  intro s document hthere hitem
  obtain ⟨moved, hmoved⟩ := hitem.exists_setItem "collection" (.str target)
  refine ⟨moved, ?_⟩
  show (s.relocate n ⟨.str source, .str target, some (.str item), .bool true⟩).shelf = _
  rw [aliasOf, hsource] at hthere
  have hfind : s.find? (n.items ++ source) (.str (documentId (.str item) (.str source))) =
      some document := hthere
  unfold relocate
  simp only [Json.display, hfind, hitem.id_eq, hmoved, if_true]
  rw [hrenamed, shelf_put, aliasOf, htarget]
  rfl

end Store

namespace Items

/-- A patch that moves an item of one collection to another and gives it a new id. -/
def toAnother : List Patch.Operation :=
  [.replace "collection" (.str "b"), .replace "id" (.str "z")]

/-- A move alone is not made: there is nothing to make a script of. Along with a test of the content
it is. -/
theorem patch_moves_iff_content_two :
    (patch noon (.str "a") (.str "x") toAnother (.bool true)).run (Store.answerMoving .standard)
        twoItems = (.error (.unset "source"), twoItems) ∧
    ∃ result t,
      (patch noon (.str "a") (.str "x") (toAnother ++ [.test "type" (.str "Feature")])
        (.bool true)).run (Store.answerMoving .standard) twoItems = (.ok result, t) ∧
      result.item "id" = .ok (.str "z") ∧ result.item "collection" = .ok (.str "b") := by
  have htruthful :
      Truthful (Store.answerMoving .standard) fun s index key => (s.shelf index key).isSome :=
    Batch.truthful_store []
  have hlibrary : noon.library.Resolves := Library.resolves_plain
  have hnow : Time.nowText noon.now = .ok "2024-05-06T12:00:00Z" := by decide +kernel
  have hpatch (ops : List Patch.Operation) := patch_moves_iff_content (Store.moving .standard)
    (Store.exact_moving .standard) htruthful (fun _ _ _ _ _ => ⟨_, rfl⟩) Naming.apart_standard rfl
      hlibrary hnow twoItems "a" "x" ops
    true rfl
  have htexts : ∀ rest : List Patch.Operation,
      (∀ op ∈ rest, relocates op = false) → NamesTexts (toAnother ++ rest) := by
    intro rest hrest op hop hrelocates
    rcases List.mem_append.mp hop with hop | hop
    · simp only [toAnother, List.mem_cons, List.not_mem_nil, or_false] at hop
      rcases hop with rfl | rfl <;> exact ⟨_, rfl⟩
    · rw [hrest op hop] at hrelocates
      cases hrelocates
  constructor
  · obtain ⟨hmoves, -⟩ := (hpatch toAnother).2 (htexts [] nofun)
    exact (hmoves (by decide)).run_eq
  · obtain ⟨-, hmovable⟩ := (hpatch _).2 (htexts [.test "type" (.str "Feature")] (by decide))
    obtain ⟨hiff, hnamed⟩ := hmovable {
      there := rfl
      parent := rfl
      targets := by decide
      free := by
        intro _ target new htarget hnew
        cases htarget
        cases hnew
        decide +kernel
      lands := by
        intro _ _ target htarget
        cases htarget
        exact Store.lands_moving _ (by decide +kernel) (by decide +kernel) (by decide +kernel)
      runs := by
        intro _
        have hok : (Patch.script (Relocation.through (.str "a") (.str "x")
                  (toAnother ++ [.test "type" (.str "Feature")]) {}).content).isOk = true := by
          decide +kernel
        obtain ⟨script, hscript⟩ := Outcome.exists_of_isOk hok
        refine ⟨script, _, hscript, rfl, fun old document hold hrun => ?_⟩
        cases hrun
        cases hold
        exact Batch.isItem_itemOf "x" "a" }
    obtain ⟨result, t, hrun⟩ := hiff.mpr ⟨.test "type" (.str "Feature"), by decide, rfl⟩
    exact ⟨result, t, hrun, hnamed result t hrun⟩

end Items

end StacCatalog
