import StacCatalog.Proofs.Index.Targets

/-!
# Where items are stored, and which of them are stored at one place
-/

namespace StacCatalog.Naming

open String

variable {text : String}

/-- The place of an item: the alias that its document is sent to, and the name of the document
there. -/
def slot (n : Naming) (item collection : String) : String × String :=
  (n.aliasOf collection, documentId (.str item) (.str collection))

/-- A text of which no character can stand in the name of an index. -/
def Dropped (text : String) : Prop :=
  ∀ c ∈ text.toList, c ∈ unsupported

instance (text : String) : Decidable (Dropped text) :=
  decidable_of_iff (text.toList.all (unsupported.contains ·) = true) (by
    simp only [Dropped, List.all_eq_true, List.contains_iff_mem])

/-! ### Aliases -/

theorem clean_append (front rest : String) : clean (front ++ rest) = clean front ++ clean rest := by
  simp [clean]

theorem clean_eq_empty_iff : clean text = "" ↔ Dropped text := by
  simp [clean, Dropped, ← toList_inj]

theorem dropped_append_bar : Dropped (text ++ "|") ↔ Dropped text := by
  simp [Dropped, unsupported, or_imp, forall_and]

/-- A beginning does not show in the alias exactly if all of it is left out. -/
theorem aliasOf_append_iff (n : Naming) (front id : String) :
    n.aliasOf (front ++ id) = n.aliasOf id ↔ Dropped front := by
  rw [aliasOf, aliasOf, append_right_inj, clean_append, ← clean_eq_empty_iff]
  constructor
  · intro h
    have hchars := congrArg toList h
    rw [toList_append, List.append_left_eq_self] at hchars
    exact toList_eq_nil_iff.mp hchars
  · intro h
    rw [h, empty_append]

/-- The end of an item's id, behind a bar, can be read as the beginning of the collection's id,
before a bar. -/
def MovesTo (moved item collection item' collection' : String) : Prop :=
  item = item' ++ "|" ++ moved ∧ collection' = moved ++ "|" ++ collection

/-- Two items have documents of one name if they are the same, or if a part of the name has moved.
-/
theorem documentId_eq_iff {i c i' c' : String} :
    documentId (.str i) (.str c) = documentId (.str i') (.str c') ↔
      (i = i' ∧ c = c') ∨ (∃ moved, MovesTo moved i c i' c') ∨
      ∃ moved, MovesTo moved i' c' i c := by
  have hmoves : ∀ {i c i' c' : String},
      (∃ moved, i.toList = i'.toList ++ '|' :: moved ∧ c'.toList = moved ++ '|' :: c.toList) ↔
        ∃ moved, MovesTo moved i c i' c' := by
    intro i c i' c'
    constructor
    · rintro ⟨moved, hi, hc⟩
      exact ⟨ofList moved, by simp [MovesTo, ← toList_inj, hi, hc]⟩
    · rintro ⟨moved, rfl, rfl⟩
      exact ⟨moved.toList, by simp⟩
  have hchars (i c : String) : (documentId (.str i) (.str c)).toList =
      i.toList ++ '|' :: c.toList := by
    simp [documentId, Json.display]
  rw [← toList_inj, hchars, hchars, append_cons_eq_append_cons_iff, hmoves, hmoves,
    toList_inj, toList_inj]

/-- A part that has moved shows in the alias unless all of it is left out there. -/
theorem aliasOf_eq_iff_of_movesTo (n : Naming) {moved i c i' c' : String}
    (h : MovesTo moved i c i' c') : n.aliasOf c = n.aliasOf c' ↔ Dropped moved := by
  rw [h.2, eq_comm, aliasOf_append_iff, dropped_append_bar]

theorem ne_append_bar (moved id : String) : moved ++ "|" ++ id ≠ id := by
  intro h
  have hlength := congrArg (fun text => text.toList.length) h
  simp only [toList_append, List.length_append] at hlength
  simp at hlength

/-- Both the alias and the name of the document are the same exactly if what has moved is left out
in the alias. -/
theorem slot_eq_slot_iff (n : Naming) (i c i' c' : String) : n.slot i c = n.slot i' c' ↔
      (i = i' ∧ c = c') ∨ (∃ moved, Dropped moved ∧ MovesTo moved i c i' c') ∨
        ∃ moved, Dropped moved ∧ MovesTo moved i' c' i c := by
  unfold slot
  rw [Prod.mk.injEq, documentId_eq_iff]
  constructor
  · rintro ⟨halias, hsame | ⟨moved, hmoved⟩ | ⟨moved, hmoved⟩⟩
    · exact .inl hsame
    · exact .inr (.inl ⟨moved, (n.aliasOf_eq_iff_of_movesTo hmoved).mp halias, hmoved⟩)
    · exact .inr (.inr ⟨moved, (n.aliasOf_eq_iff_of_movesTo hmoved).mp halias.symm, hmoved⟩)
  · rintro (⟨rfl, rfl⟩ | ⟨moved, hdropped, hmoved⟩ | ⟨moved, hdropped, hmoved⟩)
    · exact ⟨rfl, .inl ⟨rfl, rfl⟩⟩
    · exact ⟨(n.aliasOf_eq_iff_of_movesTo hmoved).mpr hdropped, .inr (.inl ⟨moved, hmoved⟩)⟩
    · exact ⟨((n.aliasOf_eq_iff_of_movesTo hmoved).mpr hdropped).symm, .inr (.inr ⟨moved, hmoved⟩)⟩

/-- **Two items are stored at one place** exactly if they are the same, or if a part of the name of
the document, of characters that an alias leaves out, can belong to the item or to the collection.
So two collections have items at one place exactly if the id of one is that of the other behind such
a part and a bar. The names that are configured make no difference. -/
theorem slot_eq_iff (n : Naming) :
    (∀ i c i' c' : String, n.slot i c = n.slot i' c' ↔
      (i = i' ∧ c = c') ∨ (∃ moved, Dropped moved ∧ MovesTo moved i c i' c') ∨
        ∃ moved, Dropped moved ∧ MovesTo moved i' c' i c) ∧
      ∀ c c' : String, (c ≠ c' ∧ ∃ i i', i ≠ "" ∧ i' ≠ "" ∧ n.slot i c = n.slot i' c') ↔
        ∃ moved, Dropped moved ∧ (c' = moved ++ "|" ++ c ∨ c = moved ++ "|" ++ c') := by
  refine ⟨n.slot_eq_slot_iff, fun c c' => ⟨?_, ?_⟩⟩
  · rintro ⟨hne, i, i', -, -, h⟩
    rcases (n.slot_eq_slot_iff i c i' c').mp h with ⟨-, hsame⟩ | ⟨moved, hdropped, -, hc⟩ |
      ⟨moved, hdropped, -, hc⟩
    · exact absurd hsame hne
    · exact ⟨moved, hdropped, Or.inl hc⟩
    · exact ⟨moved, hdropped, Or.inr hc⟩
  · -- An item `x` of the longer collection lies where `x`, a bar and the moved part lie.
    rintro ⟨moved, hdropped, hc⟩
    have hitem : "x" ++ "|" ++ moved ≠ "" := by simp [← String.toList_inj]
    rcases hc with rfl | rfl
    · refine ⟨(ne_append_bar moved c).symm, _, "x", hitem, by decide, ?_⟩
      exact (n.slot_eq_slot_iff _ _ _ _).mpr (Or.inr (Or.inl ⟨moved, hdropped, rfl, rfl⟩))
    · refine ⟨ne_append_bar moved c', "x", _, by decide, hitem, ?_⟩
      exact (n.slot_eq_slot_iff _ _ _ _).mpr (Or.inr (Or.inr ⟨moved, hdropped, rfl, rfl⟩))

example :
    standard.slot "a|" "b" = standard.slot "a" "|b" ∧
    standard.slot "a|/" "b" = standard.slot "a" "/|b" := by
  decide

end StacCatalog.Naming
