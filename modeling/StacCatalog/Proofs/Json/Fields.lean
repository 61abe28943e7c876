import Mathlib.Data.List.Nodup
import StacCatalog.Json.Basic

/-!
# The entries of objects as they are set, one and many at a time
-/

namespace StacCatalog

open List

variable {fields : Fields} {name : String} {value : Json} {more : Fields}

theorem Keyed.mem_of_mem_set {κ ν : Type} [DecidableEq κ] {entries : List (κ × ν)} {key : κ}
    {value : ν} {entry : κ × ν} (h : entry ∈ set entries key value) :
    entry = (key, value) ∨ entry ∈ entries := by
  induction entries with
  | nil => exact .inl (mem_singleton.mp h)
  | cons first rest ih =>
    obtain ⟨k, old⟩ := first
    rw [set] at h
    split at h
    · rename_i hkey
      rcases mem_cons.mp h with hentry | hrest
      · exact .inl (hkey ▸ hentry)
      · exact .inr (mem_cons_of_mem _ hrest)
    · rcases mem_cons.mp h with hentry | hrest
      · exact .inr (hentry ▸ mem_cons_self)
      · exact (ih hrest).imp_right (mem_cons_of_mem _)

namespace Fields

/-! ### One entry -/

theorem names_insert (fields : Fields) (name : String) (value : Json) :
    (fields.insert name value).names =
      if name ∈ fields.names then fields.names else fields.names ++ [name] :=
  Keyed.keys_set fields name value

theorem nodup_insert (h : fields.names.Nodup) (name : String) (value : Json) :
    (fields.insert name value).names.Nodup := by
  rw [names_insert]
  split
  · exact h
  · rename_i hname
    exact List.Nodup.append h (nodup_singleton _) (by simpa using hname)

theorem insert_of_notMem (h : name ∉ fields.names) (value) :
    fields.insert name value = fields ++ [(name, value)] := by
  induction fields with
  | nil => rfl
  | cons entry rest ih =>
    have hrest : name ∉ Fields.names rest := fun hmem => h (mem_cons_of_mem _ hmem)
    have hfirst : entry.1 ≠ name := fun heq => h (heq ▸ mem_cons_self)
    rw [insert, Keyed.set, if_neg hfirst]
    exact congrArg (entry :: ·) (ih hrest)

theorem mem_of_mem_insert {entry : String × Json} (h : entry ∈ fields.insert name value) :
    entry = (name, value) ∨ entry ∈ fields :=
  Keyed.mem_of_mem_set h

theorem insert_get? (h : fields.get? name = some value) : fields.insert name value = fields :=
  Keyed.set_of_lookup h

theorem insert_insert (fields : Fields) (name : String) (first second : Json) :
    (fields.insert name first).insert name second = fields.insert name second := by
  induction fields with
  | nil => simp [insert, Keyed.set]
  | cons entry rest ih =>
    obtain ⟨key, old⟩ := entry
    simp only [insert] at ih
    by_cases hkey : key = name <;> simp [insert, Keyed.set, hkey, ih]

theorem has_insert (fields : Fields) (name other : String) (value : Json) :
    (fields.insert name value).has other = true ↔ other = name ∨ fields.has other = true := by
  rw [has, get?_insert]
  by_cases h : other = name <;> simp [h, has]

theorem has_erase (fields : Fields) (name other : String) :
    (fields.erase name).has other = true ↔ other ≠ name ∧ fields.has other = true := by
  rw [has, get?_erase]
  by_cases h : other = name <;> simp [h, has]

theorem has_eq_false_iff : fields.has name = false ↔ fields.get? name = none := by
  rw [has, Option.isSome_eq_false_iff, Option.isNone_iff_eq_none]

theorem erase_of_not_has (h : fields.has name = false) : fields.erase name = fields :=
  Keyed.erase_of_lookup (has_eq_false_iff.mp h)

theorem get?_eq_none_iff : fields.get? name = none ↔ name ∉ fields.names :=
  Keyed.lookup_eq_none

theorem eq_of_get? {others : Fields} (hnames : fields.names = others.names)
    (hnodup : fields.names.Nodup) (h : ∀ name, fields.get? name = others.get? name) :
    fields = others := by
  induction fields generalizing others with
  | nil => exact (map_eq_nil_iff.mp hnames.symm).symm
  | cons entry rest ih =>
    obtain ⟨name, value⟩ := entry
    cases others with
    | nil => cases hnames
    | cons entry' rest' =>
      obtain ⟨name', value'⟩ := entry'
      obtain ⟨rfl, hrest⟩ := cons.inj hnames
      obtain ⟨hnew, hnodup⟩ := nodup_cons.mp hnodup
      have hvalue := h name
      simp only [get?, Keyed.lookup_cons, if_true, Option.some.injEq] at hvalue
      rw [hvalue, ih hrest hnodup fun other => ?_]
      by_cases hother : other = name
      · have hnew' : name ∉ Fields.names rest' := fun hmem => hnew (hrest.symm ▸ hmem)
        rw [hother, get?_eq_none_iff.mpr hnew, get?_eq_none_iff.mpr hnew']
      · simpa only [get?, Keyed.lookup_cons, if_neg hother] using h other

/-! ### Many entries -/

theorem nodup_insertAll (h : fields.names.Nodup) (more : Fields) :
    (fields.insertAll more).names.Nodup := by
  induction more generalizing fields with
  | nil => exact h
  | cons entry rest ih => exact ih (nodup_insert h entry.1 entry.2)

theorem insertAll_of_nodup (h : (fields ++ more).names.Nodup) :
    fields.insertAll more = fields ++ more := by
  induction more generalizing fields with
  | nil => exact (append_nil fields).symm
  | cons entry rest ih =>
    have hsplit : (fields ++ entry :: rest).names = fields.names ++ entry.1 :: Fields.names rest :=
        map_append
    have hnew : entry.1 ∉ fields.names := by
      intro hmem
      rw [hsplit] at h
      exact (nodup_append.mp h).2.2 _ hmem _ mem_cons_self rfl
    have hnext : fields.insert entry.1 entry.2 ++ rest = fields ++ entry :: rest := by
      rw [insert_of_notMem hnew, append_assoc]
      rfl
    rw [← hnext] at h ⊢
    exact ih h

theorem mem_names_insertAll :
    name ∈ (fields.insertAll more).names ↔ name ∈ fields.names ∨ name ∈ more.names := by
  induction more generalizing fields with
  | nil => simp [insertAll, names]
  | cons entry rest ih =>
    have hmem :
        name ∈ (fields.insert entry.1 entry.2).names ↔ name ∈ fields.names ∨ name = entry.1 := by
      rw [names_insert]
      split <;> grind
    have hstep : fields.insertAll (entry :: rest) =
        (fields.insert entry.1 entry.2).insertAll rest := rfl
    have hcons : Fields.names (entry :: rest) = entry.1 :: Fields.names rest := rfl
    rw [hstep, ih, hmem, hcons, mem_cons, or_assoc]

theorem names_insertAll {fields' more more' : Fields} (h : fields.names = fields'.names)
    (hmore : more.names = more'.names) :
    (fields.insertAll more).names = (fields'.insertAll more').names := by
  induction more generalizing fields fields' more' with
  | nil =>
    cases more' with
    | nil => exact h
    | cons entry' rest' => cases hmore
  | cons entry rest ih =>
    cases more' with
    | nil => cases hmore
    | cons entry' rest' =>
      obtain ⟨hname, hrest⟩ := cons.inj hmore
      have hset : (fields.insert entry.1 entry.2).names =
          (fields'.insert entry'.1 entry'.2).names := by
        rw [names_insert, names_insert, h, hname]
      show (insertAll (fields.insert entry.1 entry.2) rest).names =
        (insertAll (fields'.insert entry'.1 entry'.2) rest').names
      exact ih hset hrest

theorem get?_insertAll (fields more : Fields) (name) :
    (fields.insertAll more).get? name = (more.reverse.lookup name).or (fields.get? name) := by
  induction more generalizing fields with
  | nil => rfl
  | cons entry rest ih =>
    obtain ⟨key, value⟩ := entry
    have hstep : fields.insertAll ((key, value) :: rest) =
        (fields.insert key value).insertAll rest := rfl
    rw [hstep, ih, get?_insert, reverse_cons, lookup_append, Keyed.lookup_cons]
    by_cases h : name = key <;> simp [h]

theorem names_insertAll_of_subset (h : ∀ name ∈ more.names, name ∈ fields.names) :
    (fields.insertAll more).names = fields.names := by
  induction more generalizing fields with
  | nil => rfl
  | cons entry rest ih =>
    obtain ⟨hfirst, hrest⟩ := forall_mem_cons.mp h
    have hset : (fields.insert entry.1 entry.2).names =
        fields.names := by rw [names_insert, if_pos hfirst]
    show (insertAll (fields.insert entry.1 entry.2) rest).names = fields.names
    rw [ih (by rw [hset]; exact hrest), hset]

theorem insertAll_insertAll {first second : Fields} (hnodup : fields.names.Nodup)
    (h : first.names = second.names) :
    (fields.insertAll first).insertAll second = fields.insertAll second := by
  have hnames : ((fields.insertAll first).insertAll second).names =
      (fields.insertAll second).names := by
    rw [names_insertAll_of_subset fun name hname => mem_names_insertAll.mpr (.inr (h ▸ hname))]
    exact names_insertAll rfl h
  refine eq_of_get? hnames (nodup_insertAll (nodup_insertAll hnodup first) second) fun name => ?_
  rw [get?_insertAll, get?_insertAll, get?_insertAll]
  by_cases hname : name ∈ second.names
  · have hsome : (second.reverse.lookup name).isSome = true := by
      rwa [Keyed.isSome_lookup, map_reverse, mem_reverse]
    rw [Option.or_of_isSome hsome, Option.or_of_isSome hsome]
  · have hnone : first.reverse.lookup name = none := by
      rwa [Keyed.lookup_eq_none, map_reverse, mem_reverse, ← names, h]
    rw [hnone, Option.none_or]

end Fields

end StacCatalog
