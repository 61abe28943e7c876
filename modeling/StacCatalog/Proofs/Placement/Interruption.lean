import Mathlib.Logic.Function.Basic
import StacCatalog.Proofs.Patch.Failure
import StacCatalog.Proofs.Program.Operations

/-!
# What a renaming that fails leaves behind
-/

namespace StacCatalog

open Program

/-! ### What is stored -/

/-- The documents of a database: the collections by their ids, and the items by their indices and
names. -/
structure Holdings where
  collections : String → Option Json
  items : Shelf

namespace Holdings

def set (h : Holdings) (id : String) (collection : Option Json) : Holdings :=
  { h with collections := Function.update h.collections id collection }

/-- Items were copied into one index: nothing is changed elsewhere, and no item is lost. -/
structure CopiedInto (target : String) (before after : Holdings) : Prop where
  collections : after.collections = before.collections
  elsewhere : ∀ index key, index ≠ target → after.items index key = before.items index key
  kept : ∀ key, before.items target key ≠ none → after.items target key ≠ none

theorem CopiedInto.refl (target : String) (h : Holdings) : CopiedInto target h h where
  collections := rfl
  elsewhere := fun _ _ _ => rfl
  kept := fun _ h => h

end Holdings

variable {α β σ : Type} {answer : Answering σ} {holds : σ → Holdings}
    {leads : String → String}

/-- A write that is done as a whole or not at all. -/
def Call.Whole : Call → Prop
  | .index .. | .delete .. | .deleteIndex _ => True
  | _ => False

/-- A database that may refuse any call but the last goodbye. A write that is refused has done
nothing, but for a move, which may have copied a part. Names lead to indices. -/
structure Faltering (n : Naming) (answer : Answering σ) (holds : σ → Holdings)
    (leads : String → String) : Prop where
  refused : ∀ {s c}, c.Whole → (∀ v, (answer s c).1 ≠ .value v) → holds (answer s c).2 = holds s
  spared : ∀ s c, c.Sparing → holds (answer s c).2 = holds s
  asked : ∀ {s id found}, (answer s (.exists n.collections (.str id))).1 = .value found →
    found.truthy = ((holds s).collections id).isSome
  read : ∀ {s id reply collection}, (answer s (.get n.collections (.str id))).1 = .value reply →
    reply.item "_source" = .ok collection → (holds s).collections id = some collection
  indexed : ∀ {s id collection refresh v},
    (answer s (.index n.collections (.str id) collection refresh)).1 = .value v →
    holds (answer s (.index n.collections (.str id) collection refresh)).2 =
      (holds s).set id (some collection)
  deleted : ∀ {s id refresh v}, (answer s (.delete n.collections (.str id) refresh)).1 = .value v →
    holds (answer s (.delete n.collections (.str id) refresh)).2 = (holds s).set id none
  /-- A move copies items into the index that the name of its target leads to. -/
  moved : ∀ s move, Holdings.CopiedInto (leads (n.items ++ move.target.display)) (holds s)
    (holds (answer s (.reindex move)).2)
  closed : ∀ s, ∃ v, (answer s .close).1 = .value v

/-! ### Runs that fail without a trace -/

/-- A run that fails has changed nothing. -/
def Clean (answer : Answering σ) (holds : σ → Holdings) (p : Program α) : Prop :=
  ∀ s fault t, p.run answer s = (.error fault, t) → holds t = holds s

namespace Clean

variable {f : α → Program β}

theorem bind {p : Program α} (hp : ∀ {s o t}, p.run answer s = (o, t) → holds t = holds s)
    (hf : ∀ a, Clean answer holds (f a)) : Clean answer holds (p >>= f) := by
  intro s fault t h
  rcases run_bind_eq_error.mp h with hrun | ⟨a, u, hrun, hrest⟩
  · exact hp hrun
  · exact (hf a u fault t hrest).trans (hp hrun)

theorem liftM_bind {o : Outcome α} (hf : ∀ a, Clean answer holds (f a)) :
    Clean answer holds ((MonadLiftT.monadLift o : Program α) >>= f) := by
  refine bind (fun {s outcome t} h => ?_) hf
  rw [← (Prod.mk.inj ((run_liftM o).symm.trans h)).2]

end Clean

namespace Faltering

variable {ctx : Context} {s t : σ} {fault : Fault} (hdb : Faltering ctx.naming answer holds leads)

include hdb

theorem run_sparing {p : Program α} (hp : Sends Call.Sparing p) {o : Outcome α}
    (h : p.run answer s = (o, t)) : holds t = holds s := by
  have hsame := hp.run_eq hdb.spared s
  rw [h] at hsame
  exact hsame

theorem clean_tell {c : Call} (hc : c.Whole) : Clean answer holds (tell c) := by
  intro s fault t h
  obtain ⟨hreply, rfl⟩ := run_tell_eq_error.mp h
  refine hdb.refused hc fun v hv => ?_
  rcases hreply with hreply | hreply
  · rw [hv] at hreply
    cases hreply
  · rw [hv] at hreply
    cases hreply.1

/-- The deletion of an index is the last thing that can fail. -/
theorem clean_deleteIndex (indices : Json) :
    Clean answer holds (tell (.deleteIndex indices) >>= fun _ => tell .close) := by
  intro s fault t h
  rcases run_bind_eq_error.mp h with h | ⟨_, u, -, h⟩
  · exact hdb.clean_tell (by trivial) s fault t h
  · obtain ⟨hreply, -⟩ := run_tell_eq_error.mp h
    obtain ⟨v, hv⟩ := hdb.closed u
    rw [hv] at hreply
    rcases hreply with hreply | hreply
    · cases hreply
    · cases hreply.1

theorem clean_deleteItems (collection : Json) :
    Clean answer holds (Indices.deleteItems ctx collection) := by
  have hresolve : ∀ name, Sends Call.Sparing (perform (.resolveAlias name)) :=
      fun _ => .perform trivial
  have hunname : ∀ indices name, Sends Call.Sparing (tell (.deleteAlias indices name)) :=
    fun _ _ => .tell trivial
  refine .liftM_bind fun name => .bind (hdb.run_sparing (hresolve name)) fun resolved =>
    .liftM_bind fun named => ?_
  dsimp only
  split
  · refine .liftM_bind fun found => ?_
    split
    · exact .liftM_bind fun _ => .liftM_bind fun _ => .liftM_bind fun _ =>
        .bind (hdb.run_sparing (hunname _ _)) fun _ => hdb.clean_deleteIndex _
    · exact hdb.clean_deleteIndex _
  · exact hdb.clean_deleteIndex _

theorem run_find_ok {id : String} {collection : Json}
    (h : (Collections.find ctx (.str id)).run answer s = (.ok collection, t)) :
    (holds s).collections id = some collection := by
  obtain ⟨reply, u, hget, h⟩ := run_bind_eq_ok.mp h
  obtain ⟨hreply, rfl⟩ := run_perform_eq_ok.mp (run_orMissing_eq_ok.mp hget)
  exact hdb.read hreply (run_liftM_eq_ok.mp h).1

/-- A creation that is made or fails: nothing has changed, or the collection is stored under an id
that was free. -/
theorem run_create {new : String} {collection : Json} (hnew : collection.item "id" = .ok (.str new))
    {refresh : Option Json} {o : Outcome Unit}
    (h : (Collections.create ctx collection refresh).run answer s = (o, t)) :
    (∃ fault, o = .error fault) ∧ holds t = holds s ∨
    (holds s).collections new = none ∧ holds t = (holds s).set new (some collection) := by
  unfold Collections.create at h
  rw [hnew, liftM_ok_bind] at h
  rcases run_bind_cases h with ⟨fault, rfl, hrefresh⟩ | ⟨visible, u, hrefresh, h⟩
  · rw [run_liftM] at hrefresh
    obtain ⟨-, rfl⟩ := Prod.mk.inj hrefresh
    exact .inl ⟨⟨fault, rfl⟩, rfl⟩
  obtain ⟨-, rfl⟩ := run_liftM_eq_ok.mp hrefresh
  have hspared := hdb.spared s (.exists ctx.naming.collections (.str new)) trivial
  rcases run_bind_cases h with ⟨fault, rfl, hasked⟩ | ⟨found, u, hasked, h⟩
  · obtain ⟨-, rfl⟩ := run_perform_eq_error.mp hasked
    exact .inl ⟨⟨fault, rfl⟩, hspared⟩
  obtain ⟨hreply, rfl⟩ := run_perform_eq_ok.mp hasked
  have htaken := hdb.asked hreply
  dsimp only at h
  split at h
  · cases h
    exact .inl ⟨⟨_, rfl⟩, hspared⟩
  rename_i hfree
  rcases run_bind_cases h with ⟨fault, rfl, hindex⟩ | ⟨_, u, hindex, h⟩
  · exact .inl ⟨⟨fault, rfl⟩, (hdb.clean_tell (by trivial) _ _ _ hindex).trans hspared⟩
  obtain ⟨v, hv, rfl⟩ := run_tell_eq_ok.mp hindex
  refine .inr ⟨?_, ?_⟩
  · rw [htaken] at hfree
    simpa using hfree
  · have hspares : Sends Call.Sparing (Indices.createItems ctx (.str new)) :=
      spares_createIndex _ _ _
    rw [hdb.run_sparing hspares h, hdb.indexed hv, hspared]

/-- A deletion that fails has changed nothing, or only the index of the items could not be deleted.
-/
theorem run_delete_error {id : String} {refresh : Option Json}
    (h : (Collections.delete ctx (.str id) refresh).run answer s = (.error fault, t)) :
    holds t = holds s ∨ holds t = (holds s).set id none ∧
      ∃ u, (Indices.deleteItems ctx (.str id)).run answer u = (.error fault, t) := by
  have hrest : ∀ {u visible}, holds u = holds s →
      (Program.tell (.delete ctx.naming.collections (.str id) visible) >>= fun _ =>
        Indices.deleteItems ctx (.str id)).run answer u = (.error fault, t) →
      holds t = holds s ∨ holds t = (holds s).set id none ∧
        ∃ u, (Indices.deleteItems ctx (.str id)).run answer u = (.error fault, t) := by
    intro u visible hu h
    rcases run_bind_eq_error.mp h with hdelete | ⟨_, w, hdelete, h⟩
    · exact .inl ((hdb.clean_tell (by trivial) _ _ _ hdelete).trans hu)
    · obtain ⟨v, hv, rfl⟩ := run_tell_eq_ok.mp hdelete
      refine .inr ⟨?_, _, h⟩
      rw [hdb.clean_deleteItems _ _ _ _ h, hdb.deleted hv, hu]
  unfold Collections.delete at h
  cases hbackend : ctx.backend with
  | elasticsearch =>
    rw [hbackend] at h
    rcases run_liftM_bind_eq_error.mp h with ⟨-, rfl⟩ | ⟨visible, -, h⟩
    · exact .inl rfl
    rcases run_bind_eq_error.mp h with hfind | ⟨_, u, hfind, h⟩
    · exact .inl (hdb.run_sparing (spares_findCollection _) hfind)
    · exact hrest (hdb.run_sparing (spares_findCollection _) hfind) h
  | opensearch =>
    rw [hbackend] at h
    rcases run_bind_eq_error.mp h with hfind | ⟨_, u, hfind, h⟩
    · exact .inl (hdb.run_sparing (spares_findCollection _) hfind)
    have hu := hdb.run_sparing (spares_findCollection _) hfind
    rcases run_liftM_bind_eq_error.mp h with ⟨-, rfl⟩ | ⟨visible, -, h⟩
    · exact .inl hu
    · exact hrest hu h

end Faltering

/-- **A renaming that fails.** If the old collection is not there or the new id is taken, nothing
has changed. In any case, nothing has changed, or the collection is stored under its new id and at
most items were copied into its index; and the old collection is still there unless all that failed
is the deletion of its index. All other documents are as they were. -/
theorem update_error_leaves {ctx : Context} (hdb : Faltering ctx.naming answer holds leads)
    {id new : String} (hne : id ≠ new) {collection : Json}
    (hnew : collection.item "id" = .ok (.str new)) {refresh : Option Json} {s t : σ} {fault : Fault}
    (h : (Collections.update ctx (.str id) collection refresh).run answer s = (.error fault, t)) :
    ((holds s).collections id = none ∨ (holds s).collections new ≠ none → holds t = holds s) ∧
    (holds t = holds s ∨
      ∃ copied,
        Holdings.CopiedInto (leads (ctx.naming.items ++ new)) ((holds s).set new (some collection))
          copied ∧
        (holds t = copied ∨
          holds t = copied.set id none ∧
          ∃ v, (Indices.deleteItems ctx (.str id)).run answer v = (.error fault, t))) := by
  rcases run_liftM_bind_eq_error.mp h with ⟨-, rfl⟩ | ⟨visible, -, h⟩
  · exact ⟨fun _ => rfl, Or.inl rfl⟩
  rcases run_bind_eq_error.mp h with hfind | ⟨old, u, hfind, h⟩
  · have hsame := hdb.run_sparing (spares_findCollection _) hfind
    exact ⟨fun _ => hsame, Or.inl hsame⟩
  have hu := hdb.run_sparing (spares_findCollection _) hfind
  have hold := hdb.run_find_ok hfind
  rcases run_liftM_bind_eq_error.mp h with ⟨-, rfl⟩ | ⟨given, hgiven, h⟩
  · exact ⟨fun _ => hu, Or.inl hu⟩
  rw [hnew] at hgiven
  cases hgiven
  have hother : ¬ (Json.str id).same (.str new) = true := by simpa [Json.same] using hne
  rw [if_neg hother] at h
  -- From here on the collection is known to be there, and once its new id is seen to be free
  -- nothing stands in the way.
  have hclear : (holds u).collections new = none →
      ¬ ((holds s).collections id = none ∨ (holds s).collections new ≠ none) := by
    intro hfree
    rw [hu] at hfree
    simp [hold, hfree]
  rcases run_bind_eq_error.mp h with hcreate | ⟨_, w, hcreate, h⟩
  · rcases hdb.run_create hnew hcreate with ⟨-, hsame⟩ | ⟨hfree, hstored⟩
    · exact ⟨fun _ => hsame.trans hu, Or.inl (hsame.trans hu)⟩
    · rw [hu] at hstored
      exact ⟨fun hstop => absurd hstop (hclear hfree), Or.inr ⟨_, .refl _ _, Or.inl hstored⟩⟩
  rcases hdb.run_create hnew hcreate with ⟨⟨_, hfailed⟩, -⟩ | ⟨hfree, hstored⟩
  · cases hfailed
  rw [hu] at hstored
  refine ⟨fun hstop => absurd hstop (hclear hfree), Or.inr ?_⟩
  have hcopied := hdb.moved w ⟨.str id, .str new, none, visible.toJson⟩
  rw [hstored] at hcopied
  rcases run_bind_eq_error.mp h with hmove | ⟨_, x, hmove, h⟩
  · obtain ⟨-, rfl⟩ := run_tell_eq_error.mp hmove
    exact ⟨_, hcopied, Or.inl rfl⟩
  · obtain ⟨v, -, rfl⟩ := run_tell_eq_ok.mp hmove
    exact ⟨_, hcopied, hdb.run_delete_error h⟩

/-! ### The store -/

/-- The documents of a shelf, the collections apart. -/
def Shelf.holdings (n : Naming) (shelf : Shelf) : Holdings where
  collections := shelf n.collections
  items index := if index = n.collections then fun _ => none else shelf index

theorem Shelf.holdings_set (n : Naming) (shelf : Shelf) (id : String) (collection : Option Json) :
    (shelf.set n.collections id collection).holdings n = (shelf.holdings n).set id collection := by
  have hcollections : shelf.set n.collections id collection n.collections =
      Function.update (shelf n.collections) id collection := by
    funext key
    simp [Shelf.set, Function.update_apply]
  have hitems : ∀ index,
      index ≠ n.collections → shelf.set n.collections id collection index = shelf index := by
    intro index hindex
    funext key
    simp [Shelf.set, hindex]
  simp only [holdings, Holdings.set, hcollections, Holdings.mk.injEq, true_and]
  funext index
  split
  · rfl
  · rename_i hindex
    exact hitems index hindex

namespace Store

def refusing (refuses : Call → Bool) (s : Store) (c : Call) : Reply × Store :=
  if refuses c then (.fault (.failed "refused"), s) else s.answer [] c

variable {refuses : Call → Bool} {s : Store} {c : Call}

theorem refusing_of_value {v : Json} (h : (refusing refuses s c).1 = .value v) :
    refusing refuses s c = s.answer [] c := by
  unfold refusing at h ⊢
  split at h
  · cases h
  · rename_i hc
    rw [if_neg hc]

theorem shelf_answer_of_sparing (s : Store) (hc : c.Sparing) :
    (s.answer [] c).2.shelf = s.shelf := by
  cases c with
  | «exists» index id =>
    rcases keyed_cases s id (.value (.bool (s.find? index id).isSome), s) with h |
      h <;> exact congrArg shelf h
  | get index id => rw [answer_get]
  | createIndex index aliasName kind =>
    simp only [answer, register]
    split <;> rfl
  | indexExists | resolveAlias | deleteAlias | tolerate | close => rfl
  | _ => exact hc.elim

theorem shelf_refusing_of_sparing (hc : c.Sparing) : (refusing refuses s c).2.shelf = s.shelf := by
  unfold refusing
  split
  · rfl
  · exact shelf_answer_of_sparing s hc

theorem faltering (n : Naming) (hclose : refuses .close = false) :
    Faltering n (refusing refuses) (fun s => s.shelf.holdings n) id where
  refused {s c} _ h := by
    have hstate : (refusing refuses s c).2 = s := by
      unfold refusing at h ⊢
      split
      · rfl
      · rename_i hc
        simp only [if_neg hc] at h
        rcases harmless_answer s c with ⟨v, hv⟩ | ⟨hs, -⟩
        · exact absurd hv (h v)
        · exact hs
    rw [hstate]
  spared s c hc := congrArg (Shelf.holdings n) (shelf_refusing_of_sparing hc)
  asked {s id found} h := by
    rw [refusing_of_value h] at h
    cases h
    rfl
  read {s id reply collection} h hsource := by
    rw [refusing_of_value h] at h
    exact (database n []).read h hsource
  indexed {s id collection refresh v} h := by
    rw [refusing_of_value h, ← Shelf.holdings_set, ← shelf_put]
    rfl
  deleted {s id refresh v} h := by
    have hanswer := refusing_of_value h
    rw [hanswer] at h ⊢
    rw [← Shelf.holdings_set, ← shelf_remove]
    cases hfind : s.find? n.collections (.str id) with
    | none => simp [answer, keyed, Json.hashable, hfind] at h
    | some document => simp [answer, keyed, Json.hashable, hfind]
  moved s move := by
    have hstate : (refusing refuses s (.reindex move)).2 = s := by
      unfold refusing
      split <;> rfl
    rw [hstate]
    exact .refl _ _
  closed s := ⟨.obj [], by simp [refusing, hclose, answer]⟩

end Store

namespace Collections

def peopled : Store where
  documents := [("collections", [(.str "a", .single "id" (.str "a"))]),
    ("items_a", [(.str "x|a", itemOf "x" "a")])]
  indices := []

def newId : Program Unit :=
  update noon (.str "a") (.single "id" (.str "b")) none

def deletesIndices : Call → Bool
  | .deleteIndex _ => true
  | _ => false

/-- A renaming that may not delete the old index of items: the old collection is gone, the new one
is there, and the items are still where they were. -/
theorem update_error_leaves_index :
    ∃ t, newId.run (Store.refusing deletesIndices) peopled = (.error (.failed "refused"), t) ∧
      t.find? "collections" (.str "a") = none ∧
      t.find? "collections" (.str "b") = some (.single "id" (.str "b")) ∧
      t.find? "items_a" (.str "x|a") = some (itemOf "x" "a") := by
  have hfault : (newId.run (Store.refusing deletesIndices) peopled).1 =
      .error (.failed "refused") := by decide +kernel
  have hold : (newId.run (Store.refusing deletesIndices) peopled).2.find? "collections" (.str "a") =
      none := by
    decide +kernel
  have hnew : (newId.run (Store.refusing deletesIndices) peopled).2.find? "collections" (.str "b") =
      some (.single "id" (.str "b")) := by
    decide +kernel
  cases hrun : newId.run (Store.refusing deletesIndices) peopled with
  | mk outcome t =>
    rw [hrun] at hfault hold hnew
    obtain rfl : outcome = _ := hfault
    obtain ⟨-, hleaves⟩ := update_error_leaves (Store.faltering _ rfl) (by decide) rfl hrun
    -- Whatever was copied went to another index.
    have hitems : (t.shelf.holdings .standard).items "items_a" "x|a" =
        (peopled.shelf.holdings .standard).items "items_a" "x|a" := by
      rcases hleaves with hsame | ⟨copied, hcopied, hsame | ⟨hsame, -⟩⟩
      · exact congrArg (·.items "items_a" "x|a") hsame
      · exact (congrArg (·.items "items_a" "x|a") hsame).trans
          (hcopied.elsewhere _ _ (by decide +kernel))
      · exact (congrArg (·.items "items_a" "x|a") hsame).trans
          (hcopied.elsewhere _ _ (by decide +kernel))
    exact ⟨t, rfl, hold, hnew, hitems⟩

/-- A renaming whose move is refused has left the new collection. -/
theorem refused_move_leaves_new_collection :
    ∃ t, newId.run Scripted.answer ⟨peopled, [("reindex", [.fault (.failed "refused")])], []⟩ =
        (.error (.failed "refused"), t) ∧
      peopled.find? "collections" (.str "b") = none ∧
      t.store.find? "collections" (.str "b") = some (.single "id" (.str "b")) := by
  refine ⟨(newId.run Scripted.answer ⟨peopled, [("reindex", [.fault (.failed "refused")])], []⟩).2,
    ?_, ?_, ?_⟩
  · refine Prod.ext ?_ rfl
    decide +kernel
  · decide +kernel
  · decide +kernel

end Collections

end StacCatalog
