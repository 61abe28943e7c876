import StacCatalog.Proofs.Cluster.Collections

/-!
# The catalogue as a map of maps: collections by id, and in each of them items by id
-/

namespace StacCatalog

open Contents Function

/-- A collection with its items. -/
structure Holding where
  document : Json
  items : String → Option Json

/-- Collections by their ids. -/
abbrev Catalog := String → Option Holding

def Catalog.put (m : Catalog) (c i : String) (h : Holding) (document : Option Json) : Catalog :=
  Function.update m c (some { h with items := Function.update h.items i document })

/-- A cluster holds a catalogue, as far as it is about the ids in use. -/
structure Reflects (n : Naming) (ids : Set String) (home : String) (v : Contents) (m : Catalog) :
    Prop where
  addressed : v.Sole n.collections home
  collections : ∀ c ∈ ids, v.held home c = (m c).map Holding.document
  absent : ∀ c ∈ ids, m c = none → v.aliases (n.itemIndex c) = none ∧ v.Unused (n.aliasOf c)
  present : ∀ c ∈ ids, ∀ h, m c = some h → v.aliases (n.itemIndex c) = some [n.aliasOf c] ∧
    v.Sole (n.aliasOf c) (n.itemIndex c) ∧
    ∀ i, v.held (n.itemIndex c) (Naming.documentId (.str i) (.str c)) = h.items i

theorem Naming.documentId_inj {i j c : String} :
    documentId (.str i) (.str c) = documentId (.str j) (.str c) ↔ i = j := by
  constructor
  · intro h
    have hchars := congrArg String.toList h
    simp only [documentId, Json.display, String.toList_append,
      List.append_cancel_right_eq] at hchars
    exact String.toList_inj.mp hchars
  · exact fun h => h ▸ rfl

variable {held : Holding}

namespace Reflects

variable {n : Naming} {ids : Set String} {home : String} {v w : Contents} {m : Catalog} {c : String}

theorem carries_home (h : Reflects n ids home v m) : v.Carries home n.collections :=
  (h.addressed home).mpr rfl

theorem itemIndex_ne_home (h : Reflects n ids home v m) (hc : c ∈ ids)
    (hapart : n.aliasOf c ≠ n.collections) : n.itemIndex c ≠ home := by
  intro heq
  have hcarries := h.carries_home
  rw [← heq, Contents.Carries] at hcarries
  cases hm : m c with
  | none =>
    rw [(h.absent c hc hm).1] at hcarries
    cases hcarries
  | some held =>
    rw [(h.present c hc held hm).1, Option.getD_some, List.mem_singleton] at hcarries
    exact hapart hcarries.symm

theorem change (h : Reflects n ids home v m) (new : Option Holding)
    (haddressed : w.Sole n.collections home)
    (hhome : ∀ key, w.held home key = if key = c then new.map Holding.document else v.held home key)
    (hothers : ∀ other ∈ ids, other ≠ c →
      w.aliases (n.itemIndex other) = v.aliases (n.itemIndex other) ∧
      (∀ index, w.Carries index (n.aliasOf other) ↔ v.Carries index (n.aliasOf other)) ∧
      ∀ key, w.held (n.itemIndex other) key = v.held (n.itemIndex other) key)
    (hnone : new = none → w.aliases (n.itemIndex c) = none ∧ w.Unused (n.aliasOf c))
    (hsome : ∀ held, new = some held →
      w.aliases (n.itemIndex c) = some [n.aliasOf c] ∧ w.Sole (n.aliasOf c) (n.itemIndex c) ∧
      ∀ i, w.held (n.itemIndex c) (Naming.documentId (.str i) (.str c)) = held.items i) :
    Reflects n ids home w (Function.update m c new) where
  addressed := haddressed
  collections other hother := by
    rw [hhome]
    by_cases hc : other = c
    · rw [if_pos hc, hc, update_self]
    · rw [if_neg hc, update_of_ne hc, h.collections other hother]
  absent other hother hm := by
    by_cases hc : other = c
    · subst hc
      exact hnone (by rwa [update_self] at hm)
    · obtain ⟨haliases, hcarries, -⟩ := hothers other hother hc
      rw [update_of_ne hc] at hm
      obtain ⟨hnone, hunused⟩ := h.absent other hother hm
      exact ⟨haliases.trans hnone, fun index => mt (hcarries index).mp (hunused index)⟩
  present other hother held hm := by
    by_cases hc : other = c
    · subst hc
      exact hsome held (by rwa [update_self] at hm)
    · obtain ⟨haliases, hcarries, hheld⟩ := hothers other hother hc
      rw [update_of_ne hc] at hm
      obtain ⟨hnames, hsole, hitems⟩ := h.present other hother held hm
      exact ⟨haliases.trans hnames, fun index => (hcarries index).trans (hsole index),
        fun i => (hheld _).trans (hitems i)⟩

variable (h : Reflects n ids home v m) (hids : Set.InjOn n.aliasOf ids)
  (hapart : ∀ c ∈ ids, n.aliasOf c ≠ n.collections) (hc : c ∈ ids)

include h hapart hc

theorem setDocument (hm : m c = some held) (document : Json) :
    Reflects n ids home (v.set home c (some document))
      (Function.update m c (some { held with document := document })) := by
  obtain ⟨hnames, hsole, hitems⟩ := h.present c hc held hm
  have hne : ∀ other ∈ ids, n.itemIndex other ≠ home :=
    fun other hother => h.itemIndex_ne_home hother (hapart other hother)
  refine h.change _ h.addressed (fun key => ?_) (fun other hother _ =>
    ⟨rfl, fun _ => Iff.rfl, fun key => ?_⟩) ?_ ?_
  · simp [Contents.set, Shelf.set]
  · exact v.held_set_of_ne (hne other hother) ..
  · rintro ⟨⟩
  · rintro _ ⟨⟩
    exact ⟨hnames, hsole, fun i => (v.held_set_of_ne (hne c hc) ..).trans (hitems i)⟩

theorem setItem (hm : m c = some held) (i : String) (document : Option Json) :
    Reflects n ids home (v.set (n.itemIndex c) (Naming.documentId (.str i) (.str c)) document)
      (m.put c i held document) := by
  obtain ⟨hnames, hsole, hitems⟩ := h.present c hc held hm
  refine h.change _ h.addressed (fun key => ?_) (fun other hother hne =>
    ⟨rfl, fun _ => Iff.rfl, fun key => ?_⟩) ?_ ?_
  · rw [v.held_set_of_ne (h.itemIndex_ne_home hc (hapart c hc)).symm]
    split
    · rename_i hkey
      rw [hkey, h.collections c hc, hm]
      rfl
    · rfl
  · exact v.held_set_of_ne (n.itemIndex_injective.ne hne) ..
  · rintro ⟨⟩
  · rintro _ ⟨⟩
    refine ⟨hnames, hsole, fun j => ?_⟩
    simp only [Contents.set, Shelf.set, true_and, Naming.documentId_inj, update_apply, hitems]

include hids

theorem create (hm : m c = none) (document : Json) :
    Reflects n ids home ((v.set home c (some document)).make (n.itemIndex c) (n.aliasOf c))
      (Function.update m c (some ⟨document, fun _ => none⟩)) := by
  obtain ⟨hnone, hunused⟩ := h.absent c hc hm
  have hhome := h.itemIndex_ne_home hc (hapart c hc)
  -- Until now the index has no aliases, and then only that of the collection.
  have hcarries : ∀ name ≠ n.aliasOf c, ∀ index,
      ((v.set home c (some document)).make (n.itemIndex c) (n.aliasOf c)).Carries index name ↔
        v.Carries index name := by
    intro name hname index
    rw [carries_make, carries_set]
    split
    · rename_i hindex
      rw [hindex, Contents.Carries, hnone]
      exact iff_of_false hname List.not_mem_nil
    · rfl
  refine h.change _ (fun index => ?_) (fun key => ?_) (fun other hother hne =>
    ⟨?_, ?_, fun key => ?_⟩) ?_ ?_
  · rw [hcarries _ (hapart c hc).symm]
    exact h.addressed index
  · rw [held_make_of_ne _ hhome.symm]
    simp [Contents.set, Shelf.set]
  · exact aliases_make_of_ne _ (n.itemIndex_injective.ne hne) _
  · exact hcarries _ fun heq => hne (hids hother hc heq)
  · rw [held_make_of_ne _ (n.itemIndex_injective.ne hne),
      v.held_set_of_ne (h.itemIndex_ne_home hother (hapart other hother))]
  · rintro ⟨⟩
  · rintro _ ⟨⟩
    refine ⟨aliases_make_self .., fun index => ?_, fun i => held_make_self ..⟩
    rw [carries_make, carries_set]
    split
    · rename_i hindex
      exact iff_of_true rfl hindex
    · rename_i hindex
      exact iff_of_false (hunused index) hindex

theorem delete (hm : m c = some held) :
    Reflects n ids home ((v.set home c none).dropCarriers (n.aliasOf c))
      (Function.update m c none) := by
  obtain ⟨hnames, hsole, hitems⟩ := h.present c hc held hm
  -- The only index that has the alias is the index of the collection.
  have hne : ∀ {index}, index ≠ n.itemIndex c → ¬ (v.set home c none).Carries index (n.aliasOf c) :=
    fun hindex => mt (hsole _).mp hindex
  have hcarries (name index) : ((v.set home c none).dropCarriers (n.aliasOf c)).Carries index name ↔
      index ≠ n.itemIndex c ∧ v.Carries index name := by
    by_cases hindex : index = n.itemIndex c
    · have hgone := ((v.set home c none).dropCarriers_of_carries ((hsole index).mpr hindex)).1
      rw [Contents.Carries, hgone]
      simp [hindex]
    · rw [Contents.Carries, (v.set home c none).aliases_dropCarriers (hne hindex)]
      simp [hindex, Contents.Carries]
  have hhome := h.itemIndex_ne_home hc (hapart c hc)
  refine h.change _ (fun index => ?_) (fun key => ?_) (fun other hother hother' =>
    ⟨?_, fun index => ?_, fun key => ?_⟩)
    (fun _ => ⟨?_, fun index => ?_⟩) ?_
  · rw [hcarries, h.addressed index, and_iff_right_iff_imp]
    rintro rfl
    exact hhome.symm
  · rw [(v.set home c none).held_dropCarriers (hne hhome.symm)]
    simp [Contents.set, Shelf.set]
  · rw [(v.set home c none).aliases_dropCarriers (hne (n.itemIndex_injective.ne hother')),
      aliases_set]
  · rw [hcarries, and_iff_right_iff_imp]
    rintro hindex rfl
    rw [Contents.Carries, hnames, Option.getD_some, List.mem_singleton] at hindex
    exact hother' (hids hother hc hindex)
  · rw [(v.set home c none).held_dropCarriers (hne (n.itemIndex_injective.ne hother')),
      v.held_set_of_ne (h.itemIndex_ne_home hother (hapart other hother))]
  · exact ((v.set home c none).dropCarriers_of_carries ((hsole _).mpr rfl)).1
  · rw [hcarries]
    exact fun hindex => hindex.1 ((hsole index).mp hindex.2)
  · rintro _ ⟨⟩

end Reflects

end StacCatalog
