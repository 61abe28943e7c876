import StacCatalog.Proofs.Cluster.Basic

/-!
# A cluster in memory: what it holds, and the names of its indices
-/

namespace StacCatalog

open List

variable {name : String}

/-- What a cluster holds, with the names of all indices. -/
structure Registry where
  contents : Contents
  names : List String
  complete : ∀ index, (contents.aliases index).isSome = true → index ∈ names

variable {s : Registry}

namespace Registry

def empty : Registry where
  contents := ⟨fun _ => none, fun _ _ => none⟩
  names := []
  complete _ h := nomatch h

def owners (s : Registry) (name : String) : List String :=
  s.names.filter fun index => s.contents.Carries index name

/-- The first index that has an alias. -/
def place (s : Registry) (name : String) : Option String :=
  (s.owners name).head?

def withContents (s : Registry) (v : Contents)
    (h : ∀ index, (v.aliases index).isSome = true → (s.contents.aliases index).isSome = true) :
    Registry where
  contents := v
  names := s.names
  complete index hindex := s.complete index (h index hindex)

def set (s : Registry) (index key : String) (document : Option Json) : Registry :=
  s.withContents (s.contents.set index key document) fun _ h => h

def make (s : Registry) (index name : String) : Registry where
  contents := s.contents.make index name
  names := index :: s.names
  complete other h := by
    by_cases hother : other = index
    · exact hother ▸ mem_cons_self
    · simp only [Contents.make, Function.update_of_ne hother] at h
      exact mem_cons_of_mem _ (s.complete other h)

def dropAlias (s : Registry) (owners : List String) (name : String) : Registry :=
  s.withContents (s.contents.dropAlias owners name) fun index h => by
    simp only [Contents.dropAlias] at h
    split at h
    · simpa using h
    · exact h

def drop (s : Registry) (owners : List String) : Registry :=
  s.withContents (s.contents.drop owners) fun index h => by
    simp only [Contents.drop] at h
    split at h
    · cases h
    · exact h

def texts : Json → List String
  | .arr items => items.filterMap fun item => match item with
    | .str text => some text
    | _ => none
  | _ => []

def text : Json → String
  | .str text => text
  | _ => ""

def answer (s : Registry) : Call → Reply × Registry
  | .exists name id =>
    match s.place name with
    | some index => (.value (.bool (s.contents.held index (text id)).isSome), s)
    | none => (.value (.bool false), s)
  | .get name id =>
    match s.place name with
    | some index =>
      match s.contents.held index (text id) with
      | some document => (.value (.single "_source" document), s)
      | none => (.fault .absent, s)
    | none => (.fault .absent, s)
  | .index name id document _ =>
    match s.place name with
    | some index => (.value (.obj []), s.set index (text id) (some document))
    | none => (.fault .absent, s)
  | .delete name id _ =>
    match s.place name with
    | some index =>
      match s.contents.held index (text id) with
      | some _ => (.value (.obj []), s.set index (text id) none)
      | none => (.fault .absent, s)
    | none => (.fault .absent, s)
  | .createIndex index name _ => (.value (.obj []), s.make index name)
  | .indexExists index => (.value (.bool (s.contents.aliases index).isSome), s)
  | .resolveAlias name =>
    let entries := match s.owners name with
      | [] => []
      | owners => [.obj [("name", .str name), ("indices", Json.ofStrings owners)]]
    (.value (.single "aliases" (.arr entries)), s)
  | .deleteAlias indices name => (.value (.obj []), s.dropAlias (texts indices) (text name))
  | .deleteIndex indices => (.value (.obj []), s.drop (texts indices))
  | _ => (.value (.obj []), s)

theorem mem_owners {index : String} : index ∈ s.owners name ↔ s.contents.Carries index name := by
  simp only [owners, mem_filter, decide_eq_true_eq, and_iff_right_iff_imp]
  intro h
  refine s.complete index ?_
  unfold Contents.Carries at h
  cases haliases : s.contents.aliases index with
  | none => simp [haliases] at h
  | some names => rfl

theorem sole_of_owners {index : String} (h : s.owners name = [index]) :
    s.contents.Sole name index := by
  intro other
  rw [← mem_owners, h, mem_singleton]

theorem unused_of_owners (h : s.owners name = []) : s.contents.Unused name := by
  intro index hcarries
  have hmem := mem_owners.mpr hcarries
  rw [h] at hmem
  cases hmem

theorem place_of_sole {index : String} (h : s.contents.Sole name index) :
    s.place name = some index := by
  unfold place
  cases howners : s.owners name with
  | nil =>
    have hmem := mem_owners.mpr ((h index).mpr rfl)
    rw [howners] at hmem
    cases hmem
  | cons first rest =>
    have hcarries := mem_owners.mp (howners ▸ mem_cons_self : first ∈ s.owners name)
    exact congrArg some ((h first).mp hcarries)

theorem place_of_unused (h : s.contents.Unused name) : s.place name = none := by
  unfold place
  cases howners : s.owners name with
  | nil => rfl
  | cons first rest =>
    exact absurd (mem_owners.mp (howners ▸ mem_cons_self : first ∈ s.owners name)) (h first)

theorem texts_ofStrings (owners : List String) : texts (Json.ofStrings owners) = owners := by
  simp [texts, Json.ofStrings, filterMap_map]

theorem lists_owners (s : Registry) (name : String) :
    s.contents.Lists name (match s.owners name with
      | [] => []
      | owners => [.obj [("name", .str name), ("indices", Json.ofStrings owners)]]) := by
  cases howners : s.owners name with
  | nil => exact .inl ⟨unused_of_owners howners, rfl⟩
  | cons first rest =>
    exact .inr ⟨_, first :: rest, rfl, rfl, rfl, cons_ne_nil _ _, fun index => howners ▸ mem_owners⟩

def cluster : Cluster Registry where
  answer := answer
  contents := contents
  allowed s c := by
    cases c with
    | «exists» name id =>
      rintro index key hsole rfl
      have hanswer : s.answer (.exists name (.str key)) =
          (.value (.bool (s.contents.held index key).isSome), s) := by
        simp only [answer, place_of_sole hsole, text]
      rw [hanswer]
      exact ⟨rfl, _, rfl, rfl⟩
    | get name id =>
      refine ⟨fun hunused => ?_, ?_⟩
      · simp only [answer, place_of_unused hunused, and_self]
      · rintro index key hsole rfl
        cases hheld : s.contents.held index key with
        | some document =>
          simp only [answer, place_of_sole hsole, text, hheld, true_and]
          exact ⟨_, rfl, rfl⟩
        | none => simp only [answer, place_of_sole hsole, text, hheld, and_self]
    | index name id document refresh =>
      rintro index key hsole rfl
      simp only [answer, place_of_sole hsole]
      exact ⟨rfl, _, rfl⟩
    | delete name id refresh =>
      refine ⟨fun hunused => ?_, ?_⟩
      · simp only [answer, place_of_unused hunused, and_self]
      · rintro index key hsole rfl
        cases hheld : s.contents.held index key with
        | some document =>
          simp only [answer, place_of_sole hsole, text, hheld]
          exact ⟨rfl, _, rfl⟩
        | none => simp only [answer, place_of_sole hsole, text, hheld, and_self]
    | createIndex index name kind => exact fun _ => ⟨rfl, _, rfl⟩
    | indexExists index => exact ⟨rfl, _, rfl, rfl⟩
    | resolveAlias name => exact ⟨rfl, _, _, rfl, rfl, rfl, s.lists_owners name⟩
    | deleteAlias indices name =>
      rintro owners given rfl rfl -
      simp only [answer, texts_ofStrings]
      exact ⟨rfl, _, rfl⟩
    | deleteIndex indices =>
      rintro owners rfl -
      simp only [answer, texts_ofStrings]
      exact ⟨rfl, _, rfl⟩
    | tolerate | close => exact ⟨rfl, _, rfl⟩
    | _ => trivial

end Registry

end StacCatalog
