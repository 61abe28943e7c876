import StacCatalog.Api.Transactions
import StacCatalog.Proofs.Cluster.Basic

/-!
# Items in a cluster: what reading, storing and deleting one does
-/

namespace StacCatalog.Cluster

open Program

variable {σ : Type} {cl : Cluster σ} {ctx : Context} {v : Contents} {home index c i : String}

variable {refresh : Option Json} {visible : Refresh} {item : Json} {existOk : Bool}

theorem runs_checkCollection (cl : Cluster σ) (hhome : v.Sole ctx.naming.collections home)
    (c : String) :
    cl.Runs (Items.checkCollection ctx (.str c)) v
      (if (v.held home c).isSome then .ok () else .error (.notFound (.parent (.str c)))) v := by
  refine .exists_bind hhome fun found htruthy => ?_
  rw [htruthy]
  cases (v.held home c).isSome with
  | true => exact .pure ()
  | false => exact .fail _

variable (hcollection : item.item "collection" = .ok (.str c))

include hcollection

theorem runs_taken (cl : Cluster σ) (hid : item.item "id" = .ok (.str i))
    (hindex : v.Sole (ctx.naming.aliasOf c) index) :
    cl.Runs (Items.taken ctx item) v
      (.ok (v.held index (Naming.documentId (.str i) (.str c))).isSome) v := by
  refine .liftM_bind hcollection
    (.liftM_bind rfl (.liftM_bind hid (.exists_bind hindex fun found htruthy => ?_)))
  rw [← htruthy]
  exact .pure _

theorem runs_prepare (cl : Cluster σ) (hid : item.item "id" = .ok (.str i))
    (hhome : v.Sole ctx.naming.collections home) (hparent : (v.held home c).isSome = true)
    (hindex : v.Sole (ctx.naming.aliasOf c) index) (existOk : Bool) :
    cl.Runs (Items.prepare ctx item existOk) v
      (if !existOk && (v.held index (Naming.documentId (.str i) (.str c))).isSome then
          .error (.conflict (.item (.str i) (.str c))) else Item.toStored ctx.library ctx.now item)
      v := by
  have hcheck := runs_checkCollection cl hhome c
  rw [if_pos hparent] at hcheck
  refine .liftM_bind hcollection (.bind hcheck ?_)
  cases existOk with
  | true => exact .liftM _
  | false =>
    refine .bind (runs_taken hcollection cl hid hindex) ?_
    rw [Bool.not_false, Bool.true_and]
    split
    · exact .liftM_bind hid (.liftM_bind hcollection (.bind_error (.fail _)))
    · exact .liftM _

theorem runs_createItem_error (hid : item.item "id" = .ok (.str i))
    (hrefresh : ctx.refresh refresh = .ok visible) {fault : Fault}
    (hprepare : cl.Runs (Items.prepare ctx item existOk) v (.error fault) v) :
    cl.Runs (Items.create ctx item existOk refresh) v (.error fault) v :=
  .liftM_bind hid (.liftM_bind hcollection (.liftM_bind hrefresh (.bind_error hprepare)))

end StacCatalog.Cluster
