import Mathlib.Data.Int.Order.Basic
import Mathlib.Data.List.Forall2
import Mathlib.Order.Compare
import StacCatalog.Json.Arithmetic

/-!
# Outcomes in a row, and what reading a value gives
-/

namespace StacCatalog

open List

variable {name : String} {value member : Json} {items : List Json} {new result : Json}

/-! ### Lists side by side -/

section SideBySide

variable {α β : Type} {R : α → β → Prop} {as : List α} {bs : List β}

theorem exists_right_of_forall₂ (h : List.Forall₂ R as bs) {a : α} (ha : a ∈ as) :
    ∃ b ∈ bs, R a b := by
  induction h with
  | nil => cases ha
  | cons hab _ ih =>
    rcases mem_cons.mp ha with rfl | ha
    · exact ⟨_, mem_cons_self, hab⟩
    · obtain ⟨b, hb, h⟩ := ih ha
      exact ⟨b, mem_cons_of_mem _ hb, h⟩

theorem exists_left_of_forall₂ (h : List.Forall₂ R as bs) {b : β} (hb : b ∈ bs) : ∃ a ∈ as, R a b :=
  exists_right_of_forall₂ h.flip hb

theorem forall₂_through {γ : Type} {S : β → γ → Prop} {T : α → γ → Prop} {cs : List γ}
    (h : List.Forall₂ R as bs) (h' : List.Forall₂ S bs cs)
    (hends : ∀ a b c, R a b → S b c → T a c) : List.Forall₂ T as cs := by
  induction h generalizing cs with
  | nil =>
    cases h'
    exact .nil
  | cons hab _ ih =>
    cases h' with
    | cons hbc hrest => exact .cons (hends _ _ _ hab hbc) (ih hrest)

theorem map_eq_of_forall₂ {γ : Type} {f : α → γ} {g : β → γ} (hread : ∀ a b, R a b → f a = g b)
    (h : List.Forall₂ R as bs) : as.map f = bs.map g := by
  induction h with
  | nil => rfl
  | cons hab _ ih => rw [map_cons, map_cons, hread _ _ hab, ih]

end SideBySide

section Marks

variable {α : Type} {mark : α} {a b a' b' : List α}

/-- Between two joined texts and two others with the same result, a part may have moved from one
side to the other. -/
theorem append_cons_eq_append_cons_iff : a ++ mark :: b = a' ++ mark :: b' ↔
      (a = a' ∧ b = b') ∨ (∃ moved, a = a' ++ mark :: moved ∧ b' = moved ++ mark :: b) ∨
        ∃ moved, a' = a ++ mark :: moved ∧ b = moved ++ mark :: b' := by
  constructor
  · intro h
    rcases append_eq_append_iff.mp h with ⟨part, rfl, hpart⟩ | ⟨part, rfl, hpart⟩
    · cases part with
      | nil => exact .inl ⟨by simp, (cons.inj hpart).2⟩
      | cons c moved =>
        obtain ⟨rfl, rfl⟩ := cons.inj hpart
        exact .inr (.inr ⟨moved, rfl, rfl⟩)
    · cases part with
      | nil => exact .inl ⟨by simp, (cons.inj hpart).2.symm⟩
      | cons c moved =>
        obtain ⟨rfl, rfl⟩ := cons.inj hpart
        exact .inr (.inl ⟨moved, rfl, rfl⟩)
  · rintro (⟨rfl, rfl⟩ | ⟨moved, rfl, rfl⟩ | ⟨moved, rfl, rfl⟩) <;> simp

theorem front_eq_of_notMem (h : mark ∉ a) (h' : mark ∉ a')
    (heq : a ++ mark :: b = a' ++ mark :: b') : a = a' := by
  rcases append_cons_eq_append_cons_iff.mp heq with ⟨rfl, -⟩ | ⟨moved, rfl, -⟩ | ⟨moved, rfl, -⟩
  · rfl
  · simp at h
  · simp at h'

end Marks

/-! ### Outcomes -/

namespace Outcome

variable {α β : Type}

@[simp] theorem ok_bind (a : α) (f : α → Outcome β) : ((.ok a : Outcome α) >>= f) = f a := rfl

@[simp] theorem error_bind (fault : Fault) (f : α → Outcome β) :
    ((.error fault : Outcome α) >>= f) = .error fault := rfl

@[simp] theorem pure_eq_ok (a : α) : (pure a : Outcome α) = .ok a := rfl

theorem bind_eq_ok {o : Outcome α} {f : α → Outcome β} {b : β} :
    (o >>= f) = .ok b ↔ ∃ a, o = .ok a ∧ f a = .ok b := by
  cases o with
  | ok a => simp
  | error fault => simp

theorem exists_of_isOk {o : Outcome α} (h : o.isOk = true) : ∃ a, o = .ok a := by
  cases o with
  | ok a => exact ⟨a, rfl⟩
  | error fault => cases h

theorem mapM_eq_ok {f : α → Outcome β} {as : List α} {bs : List β} :
    as.mapM f = .ok bs ↔ List.Forall₂ (fun a b => f a = .ok b) as bs := by
  induction as generalizing bs with
  | nil => simp [eq_comm]
  | cons a as ih =>
    simp only [mapM_cons, bind_eq_ok, ih, pure_eq_ok, Except.ok.injEq, forall₂_cons_left_iff]
    grind

theorem mapM_map_ok {γ : Type} {f : β → Outcome γ} {form : α → β} {g : α → γ} {as : List α}
    (h : ∀ a ∈ as, f (form a) = .ok (g a)) : (as.map form).mapM f = .ok (as.map g) := by
  rw [mapM_eq_ok, forall₂_map_left_iff, forall₂_map_right_iff]
  exact forall₂_same.mpr h

theorem exists_mapM {f : α → Outcome β} {as : List α} (h : ∀ a ∈ as, ∃ b, f a = .ok b) :
    ∃ bs, as.mapM f = .ok bs := by
  induction as with
  | nil => exact ⟨[], rfl⟩
  | cons a as ih =>
    obtain ⟨b, hb⟩ := h a mem_cons_self
    obtain ⟨bs, hbs⟩ := ih fun a ha => h a (mem_cons_of_mem _ ha)
    exact ⟨b :: bs, by simp [mapM_cons, hb, hbs]⟩

end Outcome

namespace Json

/-! ### Members and elements -/

theorem item_of_get? {fields : Fields} (h : Fields.get? fields name = some value) :
    (Json.obj fields).item name = .ok value := by
  simp only [item, h]

theorem exists_get?_of_item (h : value.item name = .ok member) :
    ∃ fields, value = .obj fields ∧ Fields.get? fields name = some member := by
  cases value with
  | obj fields =>
    unfold item at h
    cases hget : Fields.get? fields name <;> simp_all
  | _ => cases h

theorem contains_of_item (h : value.item name = .ok member) : value.contains name = .ok true := by
  obtain ⟨fields, rfl, hget⟩ := exists_get?_of_item h
  simp [contains, Fields.has, hget]

theorem field_of_item (h : value.item name = .ok member) : value.field name = member := by
  obtain ⟨fields, rfl, hget⟩ := exists_get?_of_item h
  simp [field, Fields.getD, hget]

theorem nth_of_getElem? {i : Nat} (h : items[i]? = some value) :
    (Json.arr items).nth i = .ok value := by
  simp only [nth, h]

theorem lookup_of_item (h : value.item name = .ok member) : value.lookup name = .ok member := by
  obtain ⟨fields, rfl, hget⟩ := exists_get?_of_item h
  simp [lookup, Fields.getD, hget]

theorem lookupD_of_item (h : value.item name = .ok member) (default : Json) :
    value.lookupD name default = .ok member := by
  obtain ⟨fields, rfl, hget⟩ := exists_get?_of_item h
  simp [lookupD, hget]

theorem last_arr (h : items ≠ []) : (Json.arr items).last = .ok (items.getLast h) := by
  have hlength : 1 ≤ items.length := length_pos_of_ne_nil h
  have hlast : items[items.length - 1]? = some (items.getLast h) := by
    rw [← getLast?_eq_getElem?, getLast?_eq_some_getLast h]
  simp [last, sequence?, nthInt, hlength, hlast]

theorem exists_obj_of_setItem (h : value.setItem name new = .ok result) :
    ∃ fields, result = .obj fields := by
  cases value with
  | obj fields =>
    cases h
    exact ⟨_, rfl⟩
  | _ => cases h

theorem item_setItem (h : value.setItem name new = .ok result) (other : String) :
    result.item other = if other = name then .ok new else value.item other := by
  cases value with
  | obj fields =>
    cases h
    simp only [item, Fields.get?_insert]
    by_cases hother : other = name
    · rw [if_pos hother, if_pos hother]
    · rw [if_neg hother, if_neg hother]
  | _ => cases h

theorem lookupD_setItem {other : String} (h : value.setItem name new = .ok result)
    (hother : other ≠ name) (default : Json) :
    result.lookupD other default = value.lookupD other default := by
  cases value with
  | obj fields =>
    cases h
    simp only [lookupD, Fields.get?_insert, if_neg hother]
  | _ => cases h

/-! ### Comparing -/

theorem same_str {text : String} : (Json.str text).same value = true ↔ value = .str text := by
  cases value with
  | str other =>
    show (text == other) = true ↔ _
    rw [beq_iff_eq, Json.str.injEq]
    exact eq_comm
  | _ => simp [same, numeral?]

theorem sameFields_iff {a b : Fields} :
    sameFields a b = true ↔
      ∀ name value,
        (name, value) ∈ a → ∃ other, b.get? name = some other ∧ value.same other = true := by
  induction a with
  | nil => simp [sameFields]
  | cons entry rest ih =>
    obtain ⟨k, v⟩ := entry
    rw [sameFields, Bool.and_eq_true, ih]
    cases hlookup : b.lookup k <;> simp [Fields.get?, hlookup, or_imp, forall_and]

theorem sameFields_of_same {a b : Fields} (h : (Json.obj a).same (.obj b) = true) :
    sameFields a b = true := by
  rw [same, Bool.and_eq_true] at h
  exact h.2

theorem less_int (a b : Int) : (Json.int a).less (.int b) = .ok (decide (a < b)) := by
  have h : (compare a b == .lt) = decide (a < b) := by
    rw [Bool.eq_iff_iff]
    simp [compare_lt_iff_lt]
  simpa [less, order, numeral?, Numeral.compare?, Except.map] using h

theorem same_int (a b : Int) : (Json.int a).same (.int b) = decide (a = b) := by
  rw [Bool.eq_iff_iff]
  simp [same, numeral?, Numeral.compare?]

theorem greater_int (a b : Int) : (Json.int a).greater (.int b) = .ok (decide (b < a)) := by
  have h : (compare a b == .gt) = decide (b < a) := by
    rw [Bool.eq_iff_iff]
    simp [compare_gt_iff_gt]
  simpa [greater, order, numeral?, Numeral.compare?, Except.map] using h

end Json

end StacCatalog
