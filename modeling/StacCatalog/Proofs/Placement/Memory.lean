import StacCatalog.Proofs.Json.Access
import StacCatalog.Proofs.Placement.Database

/-!
# The store held in memory is a database, and if it refuses nothing, one that does what it is told
-/

namespace StacCatalog

open List

variable {actions : List BulkAction}

namespace Json

theorem sameKey_str {id : Json} {key : String} : id.sameKey (.str key) = true ↔ id = .str key := by
  constructor
  · intro h
    cases id with
    | float x =>
      simp only [sameKey, asKey?, Bool.and_eq_true, beq_iff_eq] at h
      have hkey := h.2
      split at hkey <;> split at hkey <;> cases hkey
    | _ => simp_all [sameKey, asKey?]
  · rintro rfl
    simp [sameKey, asKey?]

end Json

namespace Store

variable {s : Store} {index key : String} {id document : Json}

def shelf (s : Store) : Shelf :=
  fun index key => s.find? index (.str key)

theorem place_iff {place name : String} :
    (place = index ∧ (Json.str key).sameKey (.str name) = true) ↔ place = index ∧ name = key := by
  rw [Json.sameKey_str, Json.str.injEq, eq_comm (a := key)]

theorem shelf_put (s : Store) (index key : String) (document : Json) :
    (s.put index (.str key) document).shelf = s.shelf.set index key (some document) := by
  funext place name
  exact (find?_put s index place (.str key) (.str name) document).trans (if_congr place_iff rfl rfl)

theorem shelf_remove (s : Store) (index key : String) :
    (s.remove index (.str key)).shelf = s.shelf.set index key none := by
  funext place name
  exact (find?_remove s index place (.str key) (.str name)).trans (if_congr place_iff rfl rfl)

theorem keyed_cases (s : Store) (id : Json) (answer : Reply × Store) :
    (s.keyed id answer).2 = answer.2 ∨ (s.keyed id answer).2 = s := by
  unfold keyed
  split
  · exact .inl rfl
  · exact .inr rfl

theorem find?_put_cases {place : String} {given : Json}
    (h : (s.put place id given).find? index (.str key) = some document) :
    s.find? index (.str key) = some document ∨
    index = place ∧ id = .str key ∧ document = given := by
  rw [find?_put] at h
  split at h
  · rename_i hplace
    exact .inr ⟨hplace.1, Json.sameKey_str.mp hplace.2, (Option.some.inj h).symm⟩
  · exact .inl h

theorem find?_putAll_cases (refused : List String) (actions)
    (h : (s.putAll refused actions).2.find? index (.str key) = some document) :
    s.find? index (.str key) = some document ∨ ⟨index, key, document⟩ ∈ actions := by
  induction actions generalizing s with
  | nil => exact .inl h
  | cons action rest ih =>
    rw [putAll] at h
    split at h
    · rcases ih h with hold | hnew
      · exact .inl hold
      · exact .inr (mem_cons_of_mem _ hnew)
    · rcases ih h with hput | hnew
      · rcases find?_put_cases hput with hold | ⟨rfl, hid, rfl⟩
        · exact .inl hold
        · obtain rfl := Json.str.inj hid
          exact .inr mem_cons_self
      · exact .inr (mem_cons_of_mem _ hnew)

theorem find?_putAll_of_notMem
    (h : (index, key) ∉ actions.map fun action => (action.index, action.id)) :
    (s.putAll [] actions).2.find? index (.str key) = s.find? index (.str key) := by
  induction actions generalizing s with
  | nil => rfl
  | cons action rest ih =>
    rw [map_cons, mem_cons, not_or] at h
    have hother : ¬ (index = action.index ∧ (Json.str action.id).sameKey (.str key) = true) := by
      rintro ⟨rfl, hid⟩
      exact h.1 (by rw [Json.str.inj (Json.sameKey_str.mp hid)])
    rw [putAll]
    exact (ih h.2).trans (by rw [find?_put, if_neg hother])

theorem find?_putAll_of_mem (hplaces : (actions.map fun action => (action.index, action.id)).Nodup)
    {action : BulkAction} (h : action ∈ actions) :
    (s.putAll [] actions).2.find? action.index (.str action.id) = some action.document := by
  induction actions generalizing s with
  | nil => cases h
  | cons first rest ih =>
    rw [map_cons, nodup_cons] at hplaces
    rcases mem_cons.mp h with rfl | h
    · refine (find?_putAll_of_notMem hplaces.1).trans ?_
      rw [find?_put, if_pos ⟨rfl, Json.sameKey_str.mpr rfl⟩]
    · exact ih hplaces.2 h

theorem answer_get (refused : List String) (s : Store) (index : String) (id : Json) :
    (s.answer refused (.get index id)).2 = s := by
  simp only [answer, keyed]
  split
  · split <;> rfl
  · rfl

theorem answer_cases (n : Naming) {refused : List String} {c : Call}
    (h : (s.answer refused c).2.find? index (.str key) = some document) :
    s.find? index (.str key) = some document ∨
    c.Writes n (fun _ document => some document) (fun index key => s.find? index (.str key)) index
      key document := by
  -- Only storing one document or many writes; of the other calls, deleting changes the store.
  cases c with
  | «exists» place id =>
    refine .inl ?_
    rcases keyed_cases s id (.value (.bool (s.find? place id).isSome), s) with hstate | hstate <;>
      rwa [answer, hstate] at h
  | get place id =>
    rw [answer_get] at h
    exact .inl h
  | index place id given refresh =>
    rcases keyed_cases s id (.value (.single "result" (.str "created")),
      s.put place id given) with hstate | hstate
    · rw [answer, hstate] at h
      rcases find?_put_cases h with hold | ⟨rfl, rfl, rfl⟩
      · exact .inl hold
      · exact .inr ⟨rfl, rfl, fun name hname => Json.str.inj hname⟩
    · rw [answer, hstate] at h
      exact .inl h
  | delete place id refresh =>
    refine .inl ?_
    simp only [answer, keyed] at h
    split at h
    · split at h
      · rw [find?_remove] at h
        split at h
        · cases h
        · exact h
      · exact h
    · exact h
  | bulk mode actions refresh raise => exact find?_putAll_cases refused actions h
  | createIndex place aliasName kind =>
    refine .inl ?_
    simp only [answer, register] at h
    split at h <;> exact h
  | _ => exact .inl h

def database (n : Naming) (refused : List String) : Database n Store where
  answer := Store.answer refused
  shelf s index key := s.find? index (.str key)
  run _ document := some document
  found h := answer_cases n h
  readable h := by
    refine ⟨.single "_source" _, ?_, rfl⟩
    simp [answer, keyed, Json.hashable, h]
  read {s index key reply document} hreply hdocument := by
    cases hfind : s.find? index (.str key) with
    | none => simp [answer, keyed, Json.hashable, hfind] at hreply
    | some stored =>
      simp only [answer, keyed, Json.hashable, hfind, Reply.value.injEq] at hreply
      rw [← hreply] at hdocument
      rw [Except.ok.inj hdocument]
  untouched _ _ _ hrun hold := by
    cases hrun
    exact hold

theorem obeys_database (n : Naming) : (database n []).Obeys where
  batch hplaces action haction := find?_putAll_of_mem hplaces haction
  update hold hrun _ := by
    cases hrun
    exact hold
  get s index id := by
    have hstate : ((database n []).answer s (.get index id)).2 = s := answer_get [] s index id
    rw [hstate]

end Store

end StacCatalog
