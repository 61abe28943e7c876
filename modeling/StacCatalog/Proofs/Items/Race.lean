import StacCatalog.Proofs.Patch.Failure
import StacCatalog.Proofs.Program.Turns

/-!
# Creating one item from several sides at the same time
-/

namespace StacCatalog

/-- A database in which a question and a write are one step each. -/
structure Atomic {σ : Type} (answer : Answering σ) (shelf : σ → Shelf) : Prop where
  /-- A question is answered as things are, and changes nothing. -/
  asked : ∀ s index key, ∃ v, (answer s (.exists index (.str key))).1 = .value v ∧
    v.truthy = (shelf s index key).isSome ∧ shelf (answer s (.exists index (.str key))).2 = shelf s
  /-- A document that is written is there, and nothing else changes. -/
  wrote : ∀ s index key document refresh, ∃ v,
    (answer s (.index index (.str key) document refresh)).1 = .value v ∧
    shelf (answer s (.index index (.str key) document refresh)).2 =
      (shelf s).set index key (some document)

theorem Store.atomic (refused : List String) :
    Atomic (Store.answer refused) fun s index key => s.find? index (.str key) where
  asked s index key := ⟨_, rfl, rfl, rfl⟩
  wrote s index key document refresh := by
    refine ⟨_, rfl, funext fun place => funext fun name => ?_⟩
    exact (find?_put s index place (.str key) (.str name) document).trans
      (if_congr place_iff rfl rfl)

namespace Items

open Program Party Naming List
open scoped List

/-- The creation of an item of a given id and collection. -/
structure Creation (n : Naming) (id : Json) (collection : String) where
  ctx : Context
  item : Json
  refresh : Option Json
  document : Json
  visible : Refresh
  naming : ctx.naming = n
  ofId : item.item "id" = .ok id
  ofCollection : item.item "collection" = .ok (.str collection)
  stored : Item.toStored ctx.library ctx.now item = .ok document
  refreshed : ctx.refresh refresh = .ok visible

def parentQuestion (n : Naming) (collection : String) : Call :=
  .exists n.collections (.str collection)

def itemQuestion (n : Naming) (id : Json) (collection : String) : Call :=
  .exists (n.aliasOf collection) (Context.documentId id (.str collection))

namespace Creation

variable {n : Naming} {id : Json} {collection : String}

def program (k : Creation n id collection) : Program Json :=
  create k.ctx k.item false k.refresh

def write (k : Creation n id collection) : Call :=
  .index (n.aliasOf collection) (Context.documentId id (.str collection)) k.document k.visible

/-- What is left when nothing is in the way. -/
def writing (k : Creation n id collection) : Program Json := do
  tell k.write
  return k.document

/-- What is left when the collection is known to be there. -/
def asking (k : Creation n id collection) : Program Json := do
  let found ← perform (itemQuestion n id collection)
  if found.truthy then .fail (.conflict (.item id (.str collection))) else k.writing

/-- A creation asks for the collection first, then for the item, then it writes. -/
theorem program_eq (k : Creation n id collection) : k.program = (do
      let found ← perform (parentQuestion n collection)
      if found.truthy then k.asking else .fail (.notFound (.parent (.str collection)))) := by
  obtain ⟨ctx, item, refresh, document, visible, rfl, hid, hcollection, hstored, hrefresh⟩ := k
  have halias : ctx.aliasFor (.str collection) = .ok (ctx.naming.aliasOf collection) := rfl
  simp only [program, create, prepare, checkCollection, taken, hid, hcollection,
    hstored, hrefresh, halias, liftM_ok_bind, bind_assoc]
  refine congrArg (perform _ >>= ·) (funext fun found => ?_)
  cases found.truthy with
  | false => rfl
  | true =>
    simp only [Bool.not_true, Bool.not_false, Bool.false_eq_true, ↓reduceIte, pure_bind, bind_assoc]
    refine congrArg (perform _ >>= ·) (funext fun found => ?_)
    cases found.truthy <;> rfl

variable {ι σ : Type} [DecidableEq ι] {answer : Answering σ} {shelf : σ → Shelf}
    {party : Party ι Json σ}
  {i : ι} {k : Creation n id collection}

theorem turn_program (hdb : Atomic answer shelf) (hi : party.programs i = k.program)
    (hparent : (shelf party.state n.collections collection).isSome = true) :
    ∃ next, party.turn answer i = some ((i, parentQuestion n collection), next) ∧
      next.programs i = k.asking ∧ shelf next.state = shelf party.state := by
  obtain ⟨v, hv, htruthy, hshelf⟩ := hdb.asked party.state n.collections collection
  refine ⟨_, turn_perform (hi.trans k.program_eq) hv, ?_, hshelf⟩
  rw [goOn_self, if_pos (htruthy.trans hparent)]

theorem turn_asking (hdb : Atomic answer shelf) (hi : party.programs i = k.asking) :
    ∃ next, party.turn answer i = some ((i, itemQuestion n id collection), next) ∧
      next.programs i =
        (if (shelf party.state (n.aliasOf collection) (documentId id (.str collection))).isSome then
            .fail (.conflict (.item id (.str collection))) else k.writing) ∧
      shelf next.state = shelf party.state := by
  obtain ⟨v, hv, htruthy, hshelf⟩ :=
    hdb.asked party.state (n.aliasOf collection) (documentId id (.str collection))
  refine ⟨_, turn_perform hi hv, ?_, hshelf⟩
  rw [goOn_self, htruthy]

theorem turn_writing (hdb : Atomic answer shelf) (hi : party.programs i = k.writing) :
    ∃ next, party.turn answer i = some ((i, k.write), next) ∧ next.programs i = .done k.document ∧
      shelf next.state =
        (shelf party.state).set (n.aliasOf collection) (documentId id (.str collection))
          (some k.document) := by
  obtain ⟨v, hv, hshelf⟩ := hdb.wrote party.state (n.aliasOf collection)
      (documentId id (.str collection))
    k.document k.visible
  exact ⟨_, turn_tell hi hv, goOn_self .., hshelf⟩

end Creation

/-! ### Races -/

section Race

variable {n : Naming} {id : Json} {collection : String} {ι σ : Type}

theorem documentId_ne (id : Json) (collection : String) :
    documentId id (.str collection) ≠ collection := by
  intro h
  have hlength := congrArg (fun text : String => text.toList.length) h
  simp [documentId, Json.display] at hlength
  omega

theorem pair_sublist_concat {α : Type} {a b e : α} {events : List α} :
    [a, b] <+ events ++ [e] ↔ [a, b] <+ events ∨ b = e ∧ a ∈ events := by
  rw [← reverse_sublist, reverse_append]
  simp only [reverse_cons, reverse_nil, nil_append, singleton_append, sublist_cons_iff,
    List.cons.injEq]
  rw [show [b, a] = [a, b].reverse from rfl, reverse_sublist]
  refine or_congr_right ?_
  constructor
  · rintro ⟨rest, ⟨rfl, rfl⟩, hsub⟩
    exact ⟨rfl, mem_reverse.mp (singleton_sublist.mp hsub)⟩
  · rintro ⟨rfl, hmem⟩
    exact ⟨[a], ⟨rfl, rfl⟩, singleton_sublist.mpr (mem_reverse.mpr hmem)⟩

variable (callers : ι → Creation n id collection)

def wrote (i : ι) : ι × Call :=
  (i, (callers i).write)

/-- Whether one of several creations asks for the item when another has written it. -/
def Late (past : List (ι × Call)) (i : ι) : Prop :=
  ∃ j, [wrote callers j, (i, itemQuestion n id collection)] <+ past

/-- What several creations have stored: nothing, or the document of the one that wrote last. -/
def Stored (before : Shelf) (past : List (ι × Call)) (after : Shelf) : Prop :=
  (∀ j, wrote callers j ∉ past) ∧ after = before ∨
  ∃ j, wrote callers j ∈ past ∧ (∀ i, ¬ [wrote callers j, wrote callers i] <+ past) ∧
    after = before.set (n.aliasOf collection) (documentId id (.str collection))
      (some (callers j).document)

variable {callers} {past : List (ι × Call)} {i j : ι} {before after : Shelf} {c : Call}

theorem late_concat :
    Late callers (past ++ [(j, c)]) i ↔
      Late callers past i ∨
      (i, itemQuestion n id collection) = (j, c) ∧ ∃ k, wrote callers k ∈ past := by
  simp only [Late, pair_sublist_concat, exists_or, exists_and_left]

theorem Late.exists_wrote (h : Late callers past i) : ∃ j, wrote callers j ∈ past := by
  obtain ⟨j, hsub⟩ := h
  exact ⟨j, hsub.subset (by simp)⟩

namespace Stored

variable (h : Stored callers before past after)

include h

theorem parent : after n.collections collection = before n.collections collection := by
  rcases h with ⟨-, rfl⟩ | ⟨j, -, -, rfl⟩
  · rfl
  · exact if_neg fun hplace => documentId_ne id collection hplace.2.symm

theorem isSome_iff
    (hfree : before (n.aliasOf collection) (documentId id (.str collection)) = none) :
    (after (n.aliasOf collection) (documentId id (.str collection))).isSome = true ↔
      ∃ j, wrote callers j ∈ past := by
  rcases h with ⟨hnone, rfl⟩ | ⟨j, hwrote, -, rfl⟩
  · simp [hfree, hnone]
  · simpa [Shelf.set_self] using ⟨j, hwrote⟩

theorem asked {index : String} {key : Json} :
    Stored callers before (past ++ [(i, .exists index key)]) after := by
  have hne : ∀ j, wrote callers j ≠ (i, .exists index key) :=
      fun j heq => nomatch congrArg Prod.snd heq
  rcases h with ⟨hnone, rfl⟩ | ⟨j, hwrote, hlast, rfl⟩
  · exact .inl ⟨fun j => by simp [hnone j, hne j], rfl⟩
  · refine .inr ⟨j, mem_append_left _ hwrote, fun i => ?_, rfl⟩
    rw [pair_sublist_concat]
    rintro (hsub | ⟨heq, -⟩)
    · exact hlast i hsub
    · exact hne i heq

theorem written (hfirst : wrote callers i ∉ past) :
    Stored callers before (past ++ [wrote callers i])
      (after.set (n.aliasOf collection) (documentId id (.str collection))
        (some (callers i).document)) := by
  refine .inr ⟨i, by simp, fun j => ?_, ?_⟩
  · rw [pair_sublist_concat]
    rintro (hsub | ⟨-, hmem⟩)
    · exact hfirst (hsub.subset (by simp))
    · exact hfirst hmem
  · rcases h with ⟨-, rfl⟩ | ⟨j, -, -, rfl⟩
    · rfl
    · exact Shelf.set_set ..

end Stored

variable [DecidableEq ι]

variable (callers) in
/-- How far one of several creations has come, and by which calls. -/
inductive Standing (past : List (ι × Call)) (i : ι) : Program Json → Prop
  | start : callsOf i past = [] → Standing past i (callers i).program
  | asking : callsOf i past = [parentQuestion n collection] → Standing past i (callers i).asking
  | writing : callsOf i past = [parentQuestion n collection, itemQuestion n id collection] →
      ¬ Late callers past i → Standing past i (callers i).writing
  | created :
      callsOf i past = [parentQuestion n collection, itemQuestion n id collection,
        (callers i).write] →
      ¬ Late callers past i → Standing past i (.done (callers i).document)
  | refused : callsOf i past = [parentQuestion n collection, itemQuestion n id collection] →
      Late callers past i → Standing past i (.fail (.conflict (.item id (.str collection))))

variable {p : Program Json}

theorem Standing.frame (h : Standing callers past i p) (hj : j ≠ i) :
    Standing callers (past ++ [(j, c)]) i p := by
  have hcalls : callsOf i (past ++ [(j, c)]) = callsOf i past := callsOf_concat_of_ne hj
  have hlate : Late callers (past ++ [(j, c)]) i ↔ Late callers past i := by
    rw [late_concat, or_iff_left]
    rintro ⟨heq, -⟩
    exact hj (congrArg Prod.fst heq).symm
  cases h with
  | start hown => exact .start (hcalls.trans hown)
  | asking hown => exact .asking (hcalls.trans hown)
  | writing hown hearly => exact .writing (hcalls.trans hown) (mt hlate.mp hearly)
  | created hown hearly => exact .created (hcalls.trans hown) (mt hlate.mp hearly)
  | refused hown hafter => exact .refused (hcalls.trans hown) (hlate.mpr hafter)

theorem Standing.eq_done (h : Standing callers past i p) (hwrote : wrote callers i ∈ past) :
    p = .done (callers i).document := by
  have hmem : (callers i).write ∈ callsOf i past := mem_callsOf.mpr hwrote
  cases h with
  | created => rfl
  | start hown | asking hown | writing hown | refused hown =>
    simp [hown, Creation.write, parentQuestion, itemQuestion] at hmem

/-- After three calls a creation has ended: it is refused exactly if it was late. -/
theorem Standing.settled (h : Standing callers past i p)
    (hended : p.Ended ∨ 3 ≤ (callsOf i past).length) :
    wrote callers i ∈ past ∧ p = .done (callers i).document ∧ ¬ Late callers past i ∨
    p = .fail (.conflict (.item id (.str collection))) ∧ Late callers past i := by
  cases h with
  | start hown =>
    rw [hown, Creation.program_eq] at hended
    rcases hended with hended | hlength
    · exact False.elim hended
    · cases hlength
  | asking hown | writing hown hearly =>
    rcases hended with hended | hlength
    · exact False.elim hended
    · simp [hown] at hlength
  | created hown hearly =>
    exact .inl ⟨mem_callsOf.mp (by simp [hown]), rfl, hearly⟩
  | refused hown hlate => exact .inr ⟨rfl, hlate⟩

/-- How several creations stand after some calls. -/
structure Race (callers : ι → Creation n id collection) (before : Shelf) (shelf : σ → Shelf)
    (past : List (ι × Call)) (party : Party ι Json σ) : Prop where
  standing : ∀ i, Standing callers past i (party.programs i)
  stored : Stored callers before past (shelf party.state)

variable {answer : Answering σ} {shelf : σ → Shelf}

theorem Race.turn (hdb : Atomic answer shelf)
    (hparent : (before n.collections collection).isSome = true)
    (hfree : before (n.aliasOf collection) (documentId id (.str collection)) = none)
    (past : List (ι × Call)) (party : Party ι Json σ) (i : ι) (made : ι × Call)
    (next : Party ι Json σ) (h : Race callers before shelf past party)
    (hturn : party.turn answer i = some (made, next)) :
    Race callers before shelf (past ++ [made]) next := by
  obtain ⟨hmade, hothers⟩ := turn_eq_some hturn
  -- The creation whose turn it is moves on; the calls of the others do not count for it.
  suffices hmoved : Standing callers (past ++ [made]) i (next.programs i) ∧
      Stored callers before (past ++ [made]) (shelf next.state) by
    refine ⟨fun j => ?_, hmoved.2⟩
    by_cases hj : j = i
    · exact hj ▸ hmoved.1
    · obtain ⟨k, c⟩ := made
      rw [hothers j hj]
      exact (h.standing j).frame (hmade.trans_ne (Ne.symm hj))
  have hstanding := h.standing i
  generalize hp : party.programs i = p at hstanding
  cases hstanding with
  | start hown =>
    obtain ⟨_, hs, hprogram, hshelf⟩ := Creation.turn_program hdb hp
        (by rw [h.stored.parent, hparent])
    cases hs.symm.trans hturn
    refine ⟨?_, ?_⟩
    · rw [hprogram]
      exact .asking (by rw [callsOf_concat_self, hown, nil_append])
    · rw [hshelf]
      exact h.stored.asked
  | asking hown =>
    obtain ⟨_, hs, hprogram, hshelf⟩ := Creation.turn_asking hdb hp
    cases hs.symm.trans hturn
    refine ⟨?_, ?_⟩
    · have hcalls : callsOf i (past ++ [(i, itemQuestion n id collection)]) =
          [parentQuestion n collection, itemQuestion n id collection] := by
        rw [callsOf_concat_self, hown, singleton_append]
      rw [hprogram]
      by_cases hwrote : ∃ j, wrote callers j ∈ past
      · rw [if_pos ((h.stored.isSome_iff hfree).mpr hwrote)]
        exact .refused hcalls (late_concat.mpr (.inr ⟨rfl, hwrote⟩))
      · rw [if_neg (mt (h.stored.isSome_iff hfree).mp hwrote)]
        refine .writing hcalls fun hlate => ?_
        rcases late_concat.mp hlate with hlate | ⟨-, hwrote'⟩
        · exact hwrote hlate.exists_wrote
        · exact hwrote hwrote'
    · rw [hshelf]
      exact h.stored.asked
  | writing hown hearly =>
    obtain ⟨_, hs, hprogram, hshelf⟩ := Creation.turn_writing hdb hp
    cases hs.symm.trans hturn
    refine ⟨?_, ?_⟩
    · rw [hprogram]
      refine .created (by rw [callsOf_concat_self, hown]; rfl) fun hlate => ?_
      rcases late_concat.mp hlate with hlate | ⟨heq, -⟩
      · exact hearly hlate
      · cases congrArg Prod.snd heq
    · rw [hshelf]
      refine h.stored.written fun hwrote => ?_
      have hmem := mem_callsOf.mpr hwrote
      simp [hown, Creation.write, parentQuestion, itemQuestion] at hmem
  | created hown hearly | refused hown hlate =>
    rw [turn_eq_none (by rw [hp]; trivial)] at hturn
    cases hturn

variable {s : σ}

theorem Race.takeTurns (hdb : Atomic answer shelf) (callers : ι → Creation n id collection)
    (hparent : (shelf s n.collections collection).isSome = true)
    (hfree : shelf s (n.aliasOf collection) (documentId id (.str collection)) = none)
    (schedule : List ι) :
    Race callers (shelf s) shelf (takeTurns answer schedule ⟨fun i => (callers i).program, s⟩).1
      (takeTurns answer schedule ⟨fun i => (callers i).program, s⟩).2 := by
  refine takeTurns_keeps (Race callers (shelf s) shelf) (Race.turn hdb hparent hfree) schedule [] ?_
  exact ⟨fun i => .start rfl, .inl ⟨fun j => not_mem_nil, rfl⟩⟩

/-- Two creations that take turns both succeed, and the document of the second remains. -/
theorem takeTurns_alternating (hdb : Atomic answer shelf) (callers : ι → Creation n id collection)
    (hparent : (shelf s n.collections collection).isSome = true)
    (hfree : shelf s (n.aliasOf collection) (documentId id (.str collection)) = none)
    (hij : i ≠ j) :
    ∃ party, (takeTurns answer [i, j, i, j, i, j] ⟨fun i => (callers i).program, s⟩).2 = party ∧
      party.programs i = .done (callers i).document ∧
      party.programs j = .done (callers j).document ∧
      shelf party.state =
        (shelf s).set (n.aliasOf collection) (documentId id (.str collection))
          (some (callers j).document) := by
  have hji := hij.symm
  let start : Party ι Json σ := ⟨fun i => (callers i).program, s⟩
  have hstart : ∀ i, start.programs i = (callers i).program := fun _ => rfl
  obtain ⟨p₁, hturn₁, hi₁, hs₁⟩ := Creation.turn_program hdb (hstart i) hparent
  obtain ⟨p₂, hturn₂, hj₂, hs₂⟩ :=
      Creation.turn_program hdb (((turn_eq_some hturn₁).2 j hji).trans (hstart j))
    (by rw [hs₁, hparent])
  obtain ⟨p₃, hturn₃, hi₃, hs₃⟩ :=
      Creation.turn_asking hdb (((turn_eq_some hturn₂).2 i hij).trans hi₁)
  obtain ⟨p₄, hturn₄, hj₄, hs₄⟩ :=
      Creation.turn_asking hdb (((turn_eq_some hturn₃).2 j hji).trans hj₂)
  -- Both have asked, and the item is not there yet.
  have hs₄' : shelf p₄.state = shelf s := by rw [hs₄, hs₃, hs₂, hs₁]
  rw [hs₂, hs₁, hfree] at hi₃
  rw [hs₃, hs₂, hs₁, hfree] at hj₄
  obtain ⟨p₅, hturn₅, hi₅, hs₅⟩ :=
      Creation.turn_writing hdb (((turn_eq_some hturn₄).2 i hij).trans hi₃)
  obtain ⟨p₆, hturn₆, hj₆, hs₆⟩ :=
      Creation.turn_writing hdb (((turn_eq_some hturn₅).2 j hji).trans hj₄)
  refine ⟨p₆, ?_, ((turn_eq_some hturn₆).2 i hij).trans hi₅, hj₆, ?_⟩
  · rw [takeTurns_cons hturn₁, takeTurns_cons hturn₂, takeTurns_cons hturn₃,
      takeTurns_cons hturn₄, takeTurns_cons hturn₅, takeTurns_cons hturn₆, takeTurns]
  · rw [hs₆, hs₅, hs₄', Shelf.set_set]

/-- Creations of one item that run at the same time. A creation that has had its three turns has
succeeded, or it was refused because another one had written when it asked; somebody has succeeded,
and the document that was written last is stored. But several may succeed: of two that take turns,
both do, and one of the documents is lost. -/
theorem creations_race (hdb : Atomic answer shelf) (callers : ι → Creation n id collection)
    (hparent : (shelf s n.collections collection).isSome = true)
    (hfree : shelf s (n.aliasOf collection) (Naming.documentId id (.str collection)) = none) :
    (∀ schedule calls party,
      Party.takeTurns answer schedule ⟨fun i => (callers i).program, s⟩ = (calls, party) →
      ∀ i, 3 ≤ schedule.count i →
        (party.programs i = .done (callers i).document ∧ ¬ Late callers calls i ∨
          party.programs i = .fail (.conflict (.item id (.str collection))) ∧
          Late callers calls i) ∧
        ∃ j, party.programs j = .done (callers j).document ∧
          (∀ k, ¬ [wrote callers j, wrote callers k] <+ calls) ∧
          shelf party.state =
            (shelf s).set (n.aliasOf collection) (Naming.documentId id (.str collection))
              (some (callers j).document)) ∧
    ∀ i j, i ≠ j →
      ∃ party,
        (Party.takeTurns answer [i, j, i, j, i, j] ⟨fun i => (callers i).program, s⟩).2 = party ∧
        party.programs i = .done (callers i).document ∧
        party.programs j = .done (callers j).document ∧
        shelf party.state =
          (shelf s).set (n.aliasOf collection) (Naming.documentId id (.str collection))
            (some (callers j).document) := by
  refine ⟨fun schedule calls party hrun i hturns => ?_, fun i j =>
    takeTurns_alternating hdb callers hparent hfree⟩
  have hrace := Race.takeTurns hdb callers hparent hfree schedule
  have hended := Party.ended_or_length_callsOf answer i schedule ⟨fun i => (callers i).program, s⟩
  rw [hrun] at hrace hended
  have hcalls : (party.programs i).Ended ∨ 3 ≤ (Party.callsOf i calls).length :=
    hended.imp_right fun h => hturns.trans_eq h.symm
  have hsettled := (hrace.standing i).settled hcalls
  refine ⟨hsettled.imp_left And.right, ?_⟩
  rcases hrace.stored with ⟨hnone, -⟩ | ⟨j, hwrote, hlast, hstored⟩
  · rcases hsettled with ⟨hwrote, -⟩ | ⟨-, hlate⟩
    · exact absurd hwrote (hnone i)
    · obtain ⟨j, hwrote⟩ := hlate.exists_wrote
      exact absurd hwrote (hnone j)
  · exact ⟨j, (hrace.standing j).eq_done hwrote, hlast, hstored⟩

end Race

def emptyCollection : Store where
  documents := [("collections", [(.str "a", .single "id" (.str "a"))])]
  indices := []

def versionOf (second : Bool) : Json :=
  .obj [("id", .str "x"), ("type", .str "Feature"), ("collection", .str "a"),
    ("properties", .obj [("version", .str (if second then "2" else "1"))])]

def versions (second : Bool) : Creation .standard (.str "x") "a" where
  ctx := noon
  item := versionOf second
  refresh := none
  document := (Item.toStored noon.library noon.now (versionOf second)).toOption.getD .null
  visible := .later
  naming := rfl
  ofId := rfl
  ofCollection := rfl
  stored := by cases second <;> rfl
  refreshed := rfl

/-- Two versions of an item that are created in turns are both accepted, and the first is lost; if
the second creation begins when the first has ended, it is refused. -/
theorem creations_race_versions :
    (∃ party,
      (Party.takeTurns (Store.answer []) [false, true, false, true, false, true]
        ⟨fun i => (versions i).program, emptyCollection⟩).2 = party ∧
      party.programs false = .done (versions false).document ∧
      party.programs true = .done (versions true).document ∧
      party.state.find? "items_a" (.str "x|a") = some (versions true).document ∧
      (versions false).document ≠ (versions true).document) ∧
    (Party.takeTurns (Store.answer []) [false, false, false, true, true, true]
      ⟨fun i => (versions i).program, emptyCollection⟩).2.programs true =
      .fail (.conflict (.item (.str "x") (.str "a"))) := by
  have hrace := creations_race (Store.atomic []) versions (s := emptyCollection) rfl rfl
  obtain ⟨party, hrun, hfirst, hsecond, hstored⟩ := hrace.2 false true (by decide)
  refine ⟨⟨party, hrun, hfirst, hsecond, ?_, by decide⟩, ?_⟩
  · exact (congrFun (congrFun hstored "items_a") "x|a").trans (Shelf.set_self ..)
  · rcases (hrace.1 [false, false, false, true, true, true] _ _ rfl true (by decide)).1 with ⟨-,
      hearly⟩ | ⟨hrefused, -⟩
    · exact absurd ⟨false, .cons _ (.cons _ (.cons_cons _ (.cons _ (.cons_cons _ .slnil))))⟩ hearly
    · exact hrefused

end Items

end StacCatalog
