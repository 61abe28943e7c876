import StacCatalog.Proofs.Cluster.Memory
import StacCatalog.Proofs.Index.Names
import StacCatalog.Proofs.Placement.Runs

/-!
# Collections in a cluster: what creating and deleting one does to the indices
-/

namespace StacCatalog

variable {index : String}

namespace Naming

def itemIndex (n : Naming) (id : String) : String :=
  n.indexOf id ++ "-000001"

theorem itemIndex_injective (n : Naming) : Function.Injective n.itemIndex := by
  intro a b h
  refine n.indexOf_injective (String.toList_inj.mp ?_)
  have hchars := congrArg String.toList h
  simp only [itemIndex, String.toList_append] at hchars
  exact List.append_cancel_right hchars

theorem aliasOf_inj {n : Naming} {a b : String} :
    n.aliasOf a = n.aliasOf b ↔ clean a = clean b := by
  rw [← String.toList_inj, aliasOf, aliasOf, String.toList_append, String.toList_append,
    List.append_cancel_left_eq, String.toList_inj]

end Naming

namespace Cluster

open Program Collections Contents

variable {σ : Type} {cl : Cluster σ} {ctx : Context} {v : Contents} {home c : String}

theorem runs_close : cl.Runs (tell .close) v (.ok ()) v :=
  .tell fun _ _ hallows => hallows

theorem runs_createItems (h : v.aliases (ctx.naming.itemIndex c) = none) :
    cl.Runs (Indices.createItems ctx (.str c)) v (.ok ())
      (v.make (ctx.naming.itemIndex c) (ctx.naming.aliasOf c)) := by
  have hmake : cl.Runs (tell (.createIndex (ctx.naming.itemIndex c) (ctx.naming.aliasOf c) .items))
      v (.ok ()) (v.make (ctx.naming.itemIndex c) (ctx.naming.aliasOf c)) :=
    .tell fun _ _ hallows => hallows h
  unfold Indices.createItems Indices.create
  cases ctx.backend with
  | elasticsearch =>
    refine .bind (.tell fun _ _ hallows => hallows) ?_
    exact .liftM_bind rfl (.liftM_bind rfl (.bind hmake runs_close))
  | opensearch =>
    refine .liftM_bind rfl (.perform_bind fun reply u hallows => ?_)
    obtain ⟨rfl, found, hfound, htruthy⟩ := hallows
    have habsent : found.truthy = false := htruthy.trans (congrArg Option.isSome h)
    refine ⟨found, hfound, ?_⟩
    rw [habsent]
    exact .liftM_bind rfl (.bind hmake runs_close)

theorem runs_deleteItems (h : v.Carries index (ctx.naming.aliasOf c)) :
    cl.Runs (Indices.deleteItems ctx (.str c)) v (.ok ())
      (v.dropCarriers (ctx.naming.aliasOf c)) := by
  refine .liftM_bind rfl (.perform_bind fun reply u hallows => ?_)
  obtain ⟨rfl, found, entries, hfound, hcontains, hentries, hlists⟩ := hallows
  refine ⟨found, hfound, .liftM_bind hcontains ?_⟩
  rcases hlists with ⟨hunused, -⟩ | ⟨entry, owners, rfl, hindices, hname, -, howners⟩
  · exact absurd h (hunused index)
  · refine .liftM_bind hentries (.liftM_bind rfl (.liftM_bind hindices (.liftM_bind hname ?_)))
    have halias : cl.Runs
        (tell (.deleteAlias (Json.ofStrings owners) (.str (ctx.naming.aliasOf c)))) u (.ok ())
        (u.dropAlias owners (ctx.naming.aliasOf c)) :=
      .tell fun _ _ hallows => hallows owners _ rfl rfl fun index hindex =>
        (howners index).mp hindex
    have hexists : ∀ index ∈ owners,
        ((u.dropAlias owners (ctx.naming.aliasOf c)).aliases index).isSome = true := by
      intro index hindex
      have hcarries := (howners index).mp hindex
      simp only [Contents.dropAlias, if_pos hindex, Option.isSome_map]
      unfold Contents.Carries at hcarries
      cases haliases : u.aliases index with
      | none => simp [haliases] at hcarries
      | some names => rfl
    have hindex : cl.Runs (tell (.deleteIndex (Json.ofStrings owners)))
        (u.dropAlias owners (ctx.naming.aliasOf c)) (.ok ())
        (u.dropCarriers (ctx.naming.aliasOf c)) := by
      rw [← drop_dropAlias howners]
      exact .tell fun _ _ hallows => hallows owners rfl hexists
    exact .bind halias (.bind hindex runs_close)

section Collections

variable (cl) (hhome : v.Sole ctx.naming.collections home)

include hhome

theorem runs_findCollection (c : String) : cl.Runs (find ctx (.str c)) v (match v.held home c with
        | some document => .ok document
        | none => .error (.notFound (.collection (.str c)))) v :=
  .read hhome c _

variable {refresh : Option Json} {visible : Refresh} {document : Json}

theorem runs_createCollection (hid : document.item "id" = .ok (.str c))
    (hrefresh : ctx.refresh refresh = .ok visible) (hheld : v.held home c = none)
    (hindex : v.aliases (ctx.naming.itemIndex c) = none) :
    cl.Runs (create ctx document refresh) v (.ok ())
      ((v.set home c (some document)).make (ctx.naming.itemIndex c) (ctx.naming.aliasOf c)) := by
  refine .liftM_bind hid (.liftM_bind hrefresh (.exists_bind hhome fun found htruthy => ?_))
  rw [htruthy, hheld]
  exact .bind (.store hhome document) (runs_createItems hindex)

theorem runs_deleteCollection (hrefresh : ctx.refresh refresh = .ok visible)
    (hheld : (v.held home c).isSome = true) (hindex : v.Carries index (ctx.naming.aliasOf c)) :
    cl.Runs (delete ctx (.str c) refresh) v (.ok ())
      ((v.set home c none).dropCarriers (ctx.naming.aliasOf c)) := by
  obtain ⟨document, hdocument⟩ := Option.isSome_iff_exists.mp hheld
  have hfind := runs_findCollection cl hhome c
  rw [hdocument] at hfind
  have hdelete : cl.Runs (do
        tell (.delete ctx.naming.collections (.str c) visible)
        Indices.deleteItems ctx (.str c)) v (.ok ())
      ((v.set home c none).dropCarriers (ctx.naming.aliasOf c)) :=
    .bind (.remove hhome hheld) (runs_deleteItems hindex)
  unfold delete
  cases ctx.backend with
  | elasticsearch => exact .liftM_bind hrefresh (.bind hfind hdelete)
  | opensearch => exact .bind hfind (.liftM_bind hrefresh hdelete)

end Collections

/-- What creating a collection makes and what deleting one takes away, for the collections beside
it. A collection gets an index of its own, and no other collection's index is touched. When it is
deleted, the index of another collection stays as it is if the aliases of the two differ; if their
ids differ only in characters that aliases leave out, it is deleted with all documents in it. -/
theorem isolated_iff_clean_ne (cl : Cluster σ) {refresh : Option Json} {visible : Refresh}
    (hrefresh : ctx.refresh refresh = .ok visible) :
    (∀ v home c document, v.Sole ctx.naming.collections home → v.held home c = none →
      v.aliases (ctx.naming.itemIndex c) = none → document.item "id" = .ok (.str c) →
      ∃ w, cl.Runs (Collections.create ctx document refresh) v (.ok ()) w ∧
        w.aliases (ctx.naming.itemIndex c) = some [ctx.naming.aliasOf c] ∧
        ∀ other ≠ c,
          w.aliases (ctx.naming.itemIndex other) = v.aliases (ctx.naming.itemIndex other)) ∧
    ∀ v home c other, v.Sole ctx.naming.collections home → (v.held home c).isSome = true →
      v.aliases (ctx.naming.itemIndex c) = some [ctx.naming.aliasOf c] →
      v.aliases (ctx.naming.itemIndex other) = some [ctx.naming.aliasOf other] →
      ctx.naming.aliasOf other ≠ ctx.naming.collections →
      ∃ w, cl.Runs (Collections.delete ctx (.str c) refresh) v (.ok ()) w ∧
        (Naming.clean other ≠ Naming.clean c →
          w.aliases (ctx.naming.itemIndex other) = v.aliases (ctx.naming.itemIndex other) ∧
          ∀ key,
            w.held (ctx.naming.itemIndex other) key = v.held (ctx.naming.itemIndex other) key) ∧
        (Naming.clean other = Naming.clean c →
          w.aliases (ctx.naming.itemIndex other) = none ∧
          ∀ key, w.held (ctx.naming.itemIndex other) key = none) := by
  constructor
  · intro v home c document hhome hheld hindex hid
    refine ⟨_, runs_createCollection cl hhome hid hrefresh hheld hindex, aliases_make_self .., ?_⟩
    intro other hother
    rw [aliases_make_of_ne _ (ctx.naming.itemIndex_injective.ne hother), aliases_set]
  · intro v home c other hhome hheld hc hother hapart
    have hcarries : v.Carries (ctx.naming.itemIndex c)
        (ctx.naming.aliasOf c) := by simp [Contents.Carries, hc]
    have hiff : v.Carries (ctx.naming.itemIndex other) (ctx.naming.aliasOf c) ↔
        Naming.clean other = Naming.clean c := by
      simp [Contents.Carries, hother, Naming.aliasOf_inj, eq_comm]
    -- The index of the collections has another alias, so it is not the index of items.
    have hne : ctx.naming.itemIndex other ≠ home := by
      intro heq
      have hcollections := (hhome home).mpr rfl
      rw [← heq, Contents.Carries, hother, Option.getD_some, List.mem_singleton] at hcollections
      exact hapart hcollections.symm
    have hdelete := runs_deleteCollection cl hhome hrefresh hheld hcarries
    refine ⟨_, hdelete, fun hclean => ⟨?_, fun key => ?_⟩, fun hclean => ?_⟩
    · exact aliases_dropCarriers _ (mt hiff.mp hclean)
    · rw [held_dropCarriers (v.set home c none) (mt hiff.mp hclean), held_set_of_ne _ hne]
    · exact dropCarriers_of_carries _ (hiff.mpr hclean)

/-- A collection with an item, for each of two ids, and a collection without items that has the
alias of the first. -/
def twins : Registry :=
  let program : Program Unit := do
    Indices.createCollections noon
    for c in ["ab", "c"] do
      create noon (.single "id" (.str c)) none
      let _ ← Items.create noon (itemOf "x" c) false none
    create noon (.single "id" (.str "a:b")) none
  (program.run Registry.answer .empty).2

/-- Deleting `a:b` takes the item of `ab` with it, and leaves the item of `c`. -/
theorem isolated_iff_clean_ne_twins :
    (∃ w,
      Registry.cluster.Runs (Collections.create noon (.single "id" (.str "d")) none) twins.contents
        (.ok ()) w ∧
      w.aliases (Naming.standard.itemIndex "d") = some ["items_d"]) ∧
    (twins.contents.held (Naming.standard.itemIndex "ab") "x|ab").isSome = true ∧
    (twins.contents.held (Naming.standard.itemIndex "c") "x|c").isSome = true ∧
    (∃ w,
      Registry.cluster.Runs (Collections.delete noon (.str "a:b") none) twins.contents (.ok ()) w ∧
      w.held (Naming.standard.itemIndex "ab") "x|ab" = none) ∧
    ∃ w,
      Registry.cluster.Runs (Collections.delete noon (.str "a:b") none) twins.contents (.ok ()) w ∧
      (w.held (Naming.standard.itemIndex "c") "x|c").isSome = true := by
  have hhome : twins.contents.Sole "collections" "collections-000001" :=
    Registry.sole_of_owners (by decide +kernel)
  have hrefresh : noon.refresh none = .ok .later := rfl
  obtain ⟨hcreate, hdelete⟩ := isolated_iff_clean_ne Registry.cluster hrefresh
  have hheld : (twins.contents.held "collections-000001" "a:b").isSome = true := by decide +kernel
  have haliases : ∀ c ∈ ["a:b", "ab", "c"],
      twins.contents.aliases (Naming.standard.itemIndex c) = some [Naming.standard.aliasOf c] := by
    decide +kernel
  have hitem : (twins.contents.held (Naming.standard.itemIndex "c") "x|c").isSome =
      true := by decide +kernel
  obtain ⟨made, hmade, hindex, -⟩ := hcreate twins.contents _ "d" (.single "id" (.str "d")) hhome
      (by decide +kernel)
    (by decide +kernel) rfl
  obtain ⟨left, hleft, -, hgone⟩ := hdelete twins.contents _ "a:b" "ab" hhome hheld
      (haliases _ (by simp))
    (haliases _ (by simp)) (by decide)
  obtain ⟨left', hleft', hkept, -⟩ := hdelete twins.contents _ "a:b" "c" hhome hheld
      (haliases _ (by simp))
    (haliases _ (by simp)) (by decide)
  refine ⟨⟨made, hmade,
    hindex⟩, by decide +kernel, hitem, ⟨left, hleft, (hgone (by decide)).2 _⟩, left', hleft', ?_⟩
  exact (congrArg Option.isSome ((hkept (by decide)).2 "x|c")).trans hitem

end Cluster

end StacCatalog
