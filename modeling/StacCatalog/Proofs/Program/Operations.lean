import StacCatalog.Database.Collections
import StacCatalog.Proofs.Program.Sends

/-!
# What the operations on items and collections can ask for
-/

namespace StacCatalog

/-- An ordinary call, and if it is a move, one as said. -/
def Call.Ordinary (Q : Move → Prop) : Call → Prop
  | .reindex m => Q m
  | .findItems _ | .getMapping .. => False
  | _ => True

/-- A call that leaves all documents where they are: it asks for something, or is about indices and
keeps them. -/
def Call.Sparing : Call → Prop
  | .exists .. | .get .. | .createIndex .. | .indexExists _ | .resolveAlias _ | .deleteAlias .. |
      .tolerate | .close => True
  | _ => False

/-- A call that at most takes documents away. -/
def Call.Clearing : Call → Prop
  | .delete .. | .deleteIndex _ => True
  | c => c.Sparing

open Program Sends

variable {α : Type} {p : Program α} {ctx : Context} {Q : Move → Prop}

theorem Program.Sends.clearing (h : Sends Call.Sparing p) : Sends Call.Clearing p := by
  refine h.imp fun c hc => ?_
  cases c with
  | delete | deleteIndex => trivial
  | _ => exact hc

theorem Program.Sends.ordinary (h : Sends Call.Clearing p) : Sends (Call.Ordinary Q) p := by
  refine h.imp fun c hc => ?_
  cases c with
  | reindex | findItems | getMapping => exact hc.elim
  | _ => trivial

theorem spares_findCollection (id : Json) : Sends Call.Sparing (Collections.find ctx id) :=
  (perform trivial).orMissing.bind fun _ => .liftM _

theorem sends_findCollection (id : Json) : Sends (Call.Ordinary Q) (Collections.find ctx id) :=
  (spares_findCollection id).clearing.ordinary

theorem spares_createIndex (index aliasName : Outcome String) (kind : IndexKind) :
    Sends Call.Sparing (Indices.create ctx index aliasName kind) := by
  have hclose : Sends Call.Sparing (tell .close) := .tell trivial
  unfold Indices.create
  cases ctx.backend with
  | elasticsearch =>
    exact (Sends.tell trivial).bind fun _ => .liftM_bind fun _ _ => .liftM_bind fun _ _ =>
      (Sends.tell trivial).bind fun _ => hclose
  | opensearch =>
    refine .liftM_bind fun _ _ => (perform trivial).bind fun found => ?_
    dsimp only
    split
    · exact .liftM_bind fun _ _ => (Sends.tell trivial).bind fun _ => hclose
    · exact hclose

theorem sends_createCollection (collection : Json) (refresh : Option Json) :
    Sends (Call.Ordinary Q) (Collections.create ctx collection refresh) := by
  refine .liftM_bind fun id _ => .liftM_bind fun refresh _ => (perform trivial).bind fun found => ?_
  dsimp only
  split
  · exact .fail _
  · exact (Sends.tell trivial).bind fun _ => (spares_createIndex _ _ _).clearing.ordinary

theorem clears_deleteIndex (collection : Json) :
    Sends Call.Clearing (Indices.deleteItems ctx collection) := by
  have hclose : Sends Call.Clearing (tell .close) := .tell trivial
  refine .liftM_bind fun name _ => (perform trivial).bind fun resolved =>
    .liftM_bind fun named _ => ?_
  dsimp only
  split
  · refine .liftM_bind fun found _ => ?_
    split
    · exact .liftM_bind fun _ _ => .liftM_bind fun _ _ => .liftM_bind fun _ _ =>
        (Sends.tell trivial).bind fun _ =>
        (Sends.tell trivial).bind fun _ => hclose
    · exact (Sends.tell trivial).bind fun _ => hclose
  · exact (Sends.tell trivial).bind fun _ => hclose

theorem clears_deleteCollection (id : Json) (refresh : Option Json) :
    Sends Call.Clearing (Collections.delete ctx id refresh) := by
  have hrest : ∀ refresh, Sends Call.Clearing
      (tell (.delete ctx.naming.collections id refresh) >>= fun _ => Indices.deleteItems ctx id) :=
    fun refresh => (Sends.tell trivial).bind fun _ => clears_deleteIndex id
  have hfind := (@spares_findCollection ctx id).clearing
  unfold Collections.delete
  cases ctx.backend with
  | elasticsearch => exact .liftM_bind fun refresh _ => hfind.bind fun _ => hrest refresh
  | opensearch => exact hfind.bind fun _ => .liftM_bind fun refresh _ => hrest refresh

/-- The one move of a collection that is given a new id. -/
theorem sends_updateCollection {id new collection : Json} (hnew : collection.item "id" = .ok new)
    (refresh : Option Json) (hmove : ∀ refresh, Q ⟨id, new, none, refresh⟩) :
    Sends (Call.Ordinary Q) (Collections.update ctx id collection refresh) := by
  refine .liftM_bind fun resolved _ => (sends_findCollection id).bind fun _ =>
    .liftM_bind fun given hgiven => ?_
  obtain rfl : given = new := Except.ok.inj (hgiven.symm.trans hnew)
  split
  · exact .tell trivial
  · exact (sends_createCollection _ _).bind fun _ => (Sends.tell (hmove _)).bind fun _ =>
      (clears_deleteCollection _ _).ordinary

theorem sends_checkCollection (collection : Json) :
    Sends (Call.Ordinary Q) (Items.checkCollection ctx collection) := by
  refine (perform trivial).bind fun found => ?_
  split
  · exact .fail _
  · exact .pure _

theorem sends_relocation (collection item : Json) (r : Items.Relocation)
    (ops : List Patch.Operation) :
    Sends (Call.Ordinary Q) (Items.relocation ctx collection item r ops) := by
  induction ops generalizing r with
  | nil => exact .pure _
  | cons op rest ih =>
    rw [Items.relocation]
    split
    · dsimp only
      split
      · exact (sends_checkCollection _).bind fun _ => ih _
      · exact ih _
    · exact ih _

theorem sends_findItem (collection item : Json) :
    Sends (Call.Ordinary Q) (Items.find ctx collection item) :=
  .liftM_bind fun _ _ => (perform trivial).orMissing.bind fun _ => .liftM _

theorem clears_deleteItem (collection item : Json) (refresh : Option Json) :
    Sends Call.Clearing (Items.delete ctx collection item refresh) :=
  .liftM_bind fun _ _ => .liftM_bind fun _ _ => (Sends.tell trivial).orMissing

theorem sends_prepare (item : Json) (existOk : Bool) :
    Sends (Call.Ordinary Q) (Items.prepare ctx item existOk) := by
  have htaken : Sends (Call.Ordinary Q) (Items.taken ctx item) :=
    .liftM_bind fun _ _ => .liftM_bind fun _ _ => .liftM_bind fun _ _ =>
      (perform trivial).bind fun _ => .pure _
  refine .liftM_bind fun _ _ => (sends_checkCollection _).bind fun _ => ?_
  split
  · refine htaken.bind fun found => ?_
    split
    · exact .liftM_bind fun _ _ => .liftM_bind fun _ _ => .fail _
    · exact .liftM _
  · exact .liftM _

theorem sends_createItem (item : Json) (existOk : Bool) (refresh : Option Json) :
    Sends (Call.Ordinary Q) (Items.create ctx item existOk refresh) :=
  .liftM_bind fun _ _ => .liftM_bind fun _ _ => .liftM_bind fun _ _ =>
    (sends_prepare item existOk).bind fun _ =>
    .liftM_bind fun _ _ => (Sends.tell trivial).bind fun _ => .pure _

/-- The one move of an item that is patched. -/
theorem sends_patchItem {collection item : Json} (ops : List Patch.Operation) (refresh : Json)
    (hmove : ∀ target, Q ⟨collection, target, some item, .bool true⟩) :
    Sends (Call.Ordinary Q) (Items.patch ctx collection item ops refresh) := by
  have hmoveTo : ∀ target document, Sends (Call.Ordinary Q)
      (Items.moveTo ctx collection item target document refresh) := fun target document =>
    (Sends.tell (hmove target)).bind fun _ =>
      (clears_deleteItem _ _ _).ordinary.bind fun _ => .liftM _
  have hrename : ∀ collection new document, Sends (Call.Ordinary Q)
      (Items.rename ctx collection item new document refresh) := fun collection new document =>
    .liftM_bind fun _ _ => (sends_prepare _ _).bind fun _ => (sends_createItem _ _ _).bind fun _ =>
      (clears_deleteItem _ _ _).ordinary.bind fun _ => .pure _
  have hlast : ∀ (r : Items.Relocation) collection document,
      Sends (Call.Ordinary Q)
        (if r.item.truthy then Items.rename ctx collection item r.item document refresh
          else pure document) := by
    intro r collection document
    split
    · exact hrename _ _ _
    · exact .pure _
  refine (sends_relocation _ _ _ ops).bind fun r => .liftM_bind fun script _ =>
    .liftM_bind fun index _ =>
    (Sends.tell trivial).orRefused.bind fun _ => (sends_findItem _ _).bind fun document => ?_
  unfold Items.settle
  dsimp only
  split
  · exact (hmoveTo _ _).bind fun moved => hlast r _ moved
  · exact hlast r _ document

end StacCatalog
