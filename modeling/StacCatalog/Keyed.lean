/-!
# Keyed lists: values by key, in the order in which the keys were first set
-/

namespace StacCatalog.Keyed

variable {κ ν : Type} [DecidableEq κ]

/-- Sets the value of a key: in place if it is there, else at the end. -/
def set (entries : List (κ × ν)) (key : κ) (value : ν) : List (κ × ν) :=
  match entries with
  | [] => [(key, value)]
  | (k, v) :: rest => if k = key then (k, value) :: rest else (k, v) :: set rest key value

def erase (entries : List (κ × ν)) (key : κ) : List (κ × ν) :=
  entries.filter fun entry => entry.1 ≠ key

/-- The first entry of a key is the one that is read. -/
theorem lookup_cons (k other : κ) (v : ν) (rest : List (κ × ν)) :
    ((k, v) :: rest).lookup other = if other = k then some v else rest.lookup other := by
  by_cases h : other = k
  · simp [h]
  · have h' : (other == k) = false := by simpa using h
    simp [List.lookup_cons, h, h']

/-- Setting a key is seen at that key and nowhere else. -/
theorem lookup_set (entries : List (κ × ν)) (key other : κ) (value : ν) :
    (set entries key value).lookup other =
      if other = key then some value else entries.lookup other := by
  induction entries with
  | nil => simp [set, lookup_cons]
  | cons entry rest ih =>
    obtain ⟨k, v⟩ := entry
    simp only [set]
    split <;> simp only [lookup_cons, ih] <;> grind

theorem lookup_erase (entries : List (κ × ν)) (key other : κ) :
    (erase entries key).lookup other = if other = key then none else entries.lookup other := by
  induction entries with
  | nil => simp [erase]
  | cons entry rest ih =>
    obtain ⟨k, v⟩ := entry
    simp only [erase, List.filter_cons] at ih ⊢
    split <;> simp only [lookup_cons, ih] <;> grind

/-- The keys after a key is set: a new one comes last. -/
theorem keys_set (entries : List (κ × ν)) (key : κ) (value : ν) :
    (set entries key value).map Prod.fst =
      if key ∈ entries.map Prod.fst then entries.map Prod.fst
        else entries.map Prod.fst ++ [key] := by
  induction entries with
  | nil => simp [set]
  | cons entry rest ih =>
    obtain ⟨k, v⟩ := entry
    simp only [set]
    split <;> grind

theorem set_of_lookup {entries : List (κ × ν)} {key : κ} {value : ν}
    (h : entries.lookup key = some value) : set entries key value = entries := by
  induction entries with
  | nil => cases h
  | cons entry rest ih =>
    obtain ⟨k, v⟩ := entry
    rw [lookup_cons] at h
    rw [set]
    by_cases hk : k = key
    · rw [if_pos hk.symm, Option.some.injEq] at h
      rw [if_pos hk, h]
    · rw [if_neg (Ne.symm hk)] at h
      rw [if_neg hk, ih h]

theorem mem_of_lookup {entries : List (κ × ν)} {key : κ} {value : ν}
    (h : entries.lookup key = some value) : (key, value) ∈ entries := by
  obtain ⟨before, after, rfl, -⟩ := List.lookup_eq_some_iff.mp h
  exact List.mem_append_right _ List.mem_cons_self

theorem isSome_lookup {entries : List (κ × ν)} {key : κ} :
    (entries.lookup key).isSome = true ↔ key ∈ entries.map Prod.fst := by
  rw [List.lookup_isSome_iff]
  simp

theorem exists_lookup {entries : List (κ × ν)} {key : κ} (h : key ∈ entries.map Prod.fst) :
    ∃ value, entries.lookup key = some value :=
  Option.isSome_iff_exists.mp (isSome_lookup.mpr h)

theorem lookup_eq_none {entries : List (κ × ν)} {key : κ} :
    entries.lookup key = none ↔ key ∉ entries.map Prod.fst := by
  rw [← isSome_lookup, Option.not_isSome_iff_eq_none]

theorem erase_of_lookup {entries : List (κ × ν)} {key : κ} (h : entries.lookup key = none) :
    erase entries key = entries :=
  List.filter_eq_self.mpr fun _ hentry =>
    decide_eq_true fun heq => lookup_eq_none.mp h (heq ▸ List.mem_map_of_mem hentry)

theorem lookup_of_mem {entries : List (κ × ν)} {key : κ} {value : ν}
    (hkeys : (entries.map Prod.fst).Nodup) (h : (key, value) ∈ entries) :
    entries.lookup key = some value := by
  induction entries with
  | nil => cases h
  | cons entry rest ih =>
    obtain ⟨k, v⟩ := entry
    obtain ⟨hnot, hrest⟩ := List.nodup_cons.mp hkeys
    rw [lookup_cons]
    rcases List.mem_cons.mp h with hentry | hmem
    · cases hentry
      rw [if_pos rfl]
    · have hne : key ≠ k := by
        rintro rfl
        exact hnot (List.mem_map.mpr ⟨(key, value), hmem, rfl⟩)
      rw [if_neg hne, ih hrest hmem]

theorem lookup_map {μ : Type} (entries : List (κ × ν)) (f : κ → ν → μ) (key : κ) :
    (entries.map fun entry => (entry.1, f entry.1 entry.2)).lookup key =
      (entries.lookup key).map (f key) := by
  induction entries with
  | nil => rfl
  | cons entry rest ih =>
    rw [List.map_cons, lookup_cons, ih, lookup_cons]
    split
    · rename_i hkey
      rw [hkey, Option.map_some]
    · rfl

end StacCatalog.Keyed
