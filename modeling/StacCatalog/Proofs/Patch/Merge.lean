import StacCatalog.Proofs.Json.Paths
import StacCatalog.Proofs.Patch.Apply

/-!
# A merge patch and its operations do the same, or the operations fail
-/

namespace StacCatalog

open List Fields

variable {value : Json} {key : String}

/-! ### The merge of RFC 7396 -/

mutual

/-- A value after a merge. What is no object counts as an empty one where the patch is an object. -/
def Json.mergePatch (target : Option Json) : Json → Json
  | .obj patch => .obj (Fields.mergePatch ((target.bind Json.fields?).getD []) patch)
  | value => value

def Fields.mergePatch : Fields → List (String × Json) → Fields
  | target, [] => target
  | target, (name, .null) :: rest => Fields.mergePatch (target.erase name) rest
  | target, (name, value) :: rest =>
    Fields.mergePatch (target.insert name (Json.mergePatch (target.get? name) value)) rest

end

theorem Json.eq_obj_of_fields? {value : Option Json} {fields : Fields}
    (h : value.bind Json.fields? = some fields) : value = some (.obj fields) := by
  obtain ⟨inner, rfl, hinner⟩ := Option.bind_eq_some_iff.mp h
  cases inner <;> cases hinner
  rfl

def Fields.mergeMember (target : Fields) (name : String) (value : Json) : Fields :=
  match value with
  | .null => target.erase name
  | value => target.insert name (Json.mergePatch (target.get? name) value)

theorem Fields.mergePatch_cons (target : Fields) (name : String) (value : Json)
    (rest : List (String × Json)) :
    Fields.mergePatch target ((name, value) :: rest) =
      Fields.mergePatch (target.mergeMember name value) rest := by
  cases value <;> simp only [Fields.mergePatch, Fields.mergeMember]

theorem Fields.get?_mergeMember {target : Fields} {name other : String} (h : other ≠ name) :
    (target.mergeMember name value).get? other = target.get? other := by
  unfold Fields.mergeMember
  split
  · rw [get?_erase, if_neg h]
  · rw [get?_insert, if_neg h]

namespace Patch

/-! ### Patches whose members have paths -/

mutual

/-- A member of a proper patch: an object in it says something. -/
def ProperMember : Json → Prop
  | .obj fields => fields ≠ [] ∧ Proper fields
  | _ => True

/-- A patch whose members, at every depth, have different names that can stand in a path. -/
def Proper : List (String × Json) → Prop
  | [] => True
  | (key, value) :: rest =>
    PlainKey key ∧ key ∉ rest.map Prod.fst ∧ ProperMember value ∧ Proper rest

end

theorem Operation.path_under (op : Operation) (key : String) :
    (op.under key).path = key ++ "." ++ op.path := by
  cases op <;> rfl

mutual

theorem no_slash_mergeMember {key : String} (hkey : PlainKey key) :
    (value : Json) → ProperMember value → ∀ op ∈ mergeMember key value, '/' ∉ op.path.toList
  | .obj fields, hv, op, hop => by
    rw [mergeMember, mem_map] at hop
    obtain ⟨inner, hinner, rfl⟩ := hop
    have hslash := no_slash_merge fields hv.2 inner hinner
    simpa [Operation.path_under] using ⟨hkey.2.2, hslash⟩
  | .null, _, op, hop | .bool _, _, op, hop | .int _, _, op, hop | .float _, _, op,
      hop | .str _, _, op, hop
  | .arr _, _, op, hop => by
    simp only [mergeMember, mem_singleton] at hop
    rw [hop]
    exact hkey.2.2

theorem no_slash_merge : (patch : List (String × Json)) → Proper patch → ∀ op ∈ merge patch,
    '/' ∉ op.path.toList
  | [], _, op, hop => by cases hop
  | (key, value) :: rest, h, op, hop => by
    rw [merge, mem_append] at hop
    rcases hop with hop | hop
    · exact no_slash_mergeMember h.1 value h.2.2.1 op hop
    · exact no_slash_merge rest h.2.2.2 op hop

end

mutual

theorem mergeMember_ne_nil (key : String) :
    (value : Json) → ProperMember value → mergeMember key value ≠ []
  | .obj fields, hv => by
    rw [mergeMember, Ne, map_eq_nil_iff]
    exact merge_ne_nil fields hv.2 hv.1
  | .null, _ | .bool _, _ | .int _, _ | .float _, _ | .str _, _ | .arr _, _ => by simp [mergeMember]

theorem merge_ne_nil : (patch : List (String × Json)) → Proper patch → patch ≠ [] → merge patch ≠ []
  | [], _, h => absurd rfl h
  | (key, value) :: rest, hp, _ => by
    rw [merge]
    exact append_ne_nil_of_left_ne_nil (mergeMember_ne_nil key value hp.2.2.1) _

end

/-! ### What the operations miss -/

mutual

/-- What the operations of a member miss in the value they are for. -/
def lacksMember : Json → Option Json → Bool
  | .null, target => target.isNone
  | .obj patch, target =>
    match target.bind Json.fields? with
    | some fields => lacks patch fields
    | none => true
  | _, _ => false

/-- Whether the operations of a patch miss something in their target. -/
def lacks : List (String × Json) → Fields → Bool
  | [], _ => false
  | (name, value) :: rest, target => lacksMember value (target.get? name) || lacks rest target

end

theorem lacks_congr {patch : List (String × Json)} {target other : Fields}
    (h : ∀ name ∈ patch.map Prod.fst, other.get? name = target.get? name) :
    lacks patch other = lacks patch target := by
  induction patch with
  | nil => simp only [lacks]
  | cons entry rest ih =>
    obtain ⟨name, value⟩ := entry
    rw [lacks, lacks, h name mem_cons_self, ih fun name hname => h name (mem_cons_of_mem _ hname)]

/-- What a patch needs at a path and a target does not have: an object where the patch has one, or
the member that the patch removes. -/
def UnmetAt (patch : Json) (target : Option Json) (path : List String) : Prop :=
  (∃ fields, patch.at? path = some (.obj fields)) ∧
    (∀ fields, target.bind (·.at? path) ≠ some (.obj fields)) ∨ patch.at? path = some .null ∧
    target.bind (·.at? path) = none

/-- A need of a patch, below its top, that a target does not meet. -/
def Unmet (patch target : Json) : Prop :=
  ∃ path, path ≠ [] ∧ UnmetAt patch (some target) path

theorem unmetAt_cons (patch target : Fields) (key : String) (path : List String) :
    UnmetAt (.obj patch) (some (.obj target)) (key :: path) ↔
      ∃ value, Fields.get? patch key = some value ∧ UnmetAt value (target.get? key) path := by
  simp only [UnmetAt, Json.at?, Option.bind_some]
  cases Fields.get? patch key <;> simp

/-- A need of an object is one of its members', as the target has them. -/
theorem unmet_obj (patch target : Fields) :
    Unmet (.obj patch) (.obj target) ↔
      ∃ key value,
        Fields.get? patch key = some value ∧ ∃ path, UnmetAt value (target.get? key) path := by
  constructor
  · rintro ⟨path, hpath, h⟩
    obtain ⟨key, path, rfl⟩ := exists_cons_of_ne_nil hpath
    obtain ⟨value, hvalue, hat⟩ := (unmetAt_cons patch target key path).mp h
    exact ⟨key, value, hvalue, path, hat⟩
  · rintro ⟨key, value, hvalue, path, hat⟩
    exact ⟨key :: path, cons_ne_nil _ _,
      (unmetAt_cons patch target key path).mpr ⟨value, hvalue, hat⟩⟩

theorem unmetAt_leaf (hobj : ∀ fields, value ≠ .obj fields) (target : Option Json)
    (path : List String) :
    UnmetAt value target path ↔ path = [] ∧ value = .null ∧ target = none := by
  cases path with
  | nil => cases target <;> simp [UnmetAt, Json.at?, hobj]
  | cons key path =>
    have hnone : value.at? (key :: path) = none := by
      rwa [Json.at?]
    simp [UnmetAt, hnone]

mutual

theorem lacksMember_iff : (value : Json) → ProperMember value → (target : Option Json) →
    (lacksMember value target = true ↔ ∃ path, UnmetAt value target path)
  | .obj patch, hv, target => by
    cases hobj : target.bind Json.fields? with
    | some fields =>
      obtain rfl := Json.eq_obj_of_fields? hobj
      have htop : ¬ UnmetAt (.obj patch) (some (.obj fields)) [] := by simp [UnmetAt, Json.at?]
      rw [lacksMember, hobj]
      refine (lacks_iff patch hv.2 fields).trans ⟨fun ⟨path, _, h⟩ => ⟨path, h⟩, fun ⟨path, h⟩ =>
        ⟨path, ?_, h⟩⟩
      rintro rfl
      exact htop h
    | none =>
      have hno : ∀ fields, target ≠ some (.obj fields) := by
        rintro fields rfl
        cases hobj
      rw [lacksMember, hobj]
      refine iff_of_true rfl ⟨[], Or.inl ⟨⟨patch, rfl⟩, ?_⟩⟩
      simpa [Json.at?] using hno
  | .null, _, target => by simp [lacksMember, unmetAt_leaf]
  | .bool _, _, target | .int _, _, target | .float _, _, target | .str _, _, target |
      .arr _, _, target => by
    simp [lacksMember, unmetAt_leaf]

/-- The operations of a proper patch miss something exactly if one of its needs is not met. -/
theorem lacks_iff : (patch : List (String × Json)) → Proper patch → (target : Fields) →
    (lacks patch target = true ↔ Unmet (.obj patch) (.obj target))
  | [], _, target => by
    rw [unmet_obj]
    simp [lacks, Fields.get?]
  | (name, value) :: rest, h, target => by
    have hmember : (lacksMember value (target.get? name) = true ↔ _) :=
        lacksMember_iff value h.2.2.1 _
    have hrest : (lacks rest target = true ↔ _) := lacks_iff rest h.2.2.2 target
    have hname : Fields.get? rest name = none := Keyed.lookup_eq_none.mpr h.2.1
    rw [lacks, Bool.or_eq_true, hmember, hrest, unmet_obj, unmet_obj]
    constructor
    · rintro (⟨path, hpath⟩ | ⟨key, inner, hinner, hpath⟩)
      · exact ⟨name, value, by rw [Fields.get?, Keyed.lookup_cons, if_pos rfl], path, hpath⟩
      · have hkey : key ≠ name := by
          rintro rfl
          rw [hname] at hinner
          cases hinner
        exact ⟨key, inner, by rwa [Fields.get?, Keyed.lookup_cons, if_neg hkey], hpath⟩
    · rintro ⟨key, inner, hinner, hpath⟩
      rw [Fields.get?, Keyed.lookup_cons] at hinner
      by_cases hkey : key = name
      · rw [if_pos hkey, Option.some.injEq] at hinner
        rw [hkey, ← hinner] at hpath
        exact Or.inl hpath
      · rw [if_neg hkey] at hinner
        exact Or.inr ⟨key, inner, hinner, hpath⟩

end

/-! ### Merging by operations -/

mutual

theorem applyAll_mergeMember {key : String} (hkey : PlainKey key) :
    (value : Json) → ProperMember value → (target : Fields) → applyAll (mergeMember key value)
    (.obj target) =
      if lacksMember value (target.get? key) then none
        else some (.obj (target.mergeMember key value))
  | .null, _, target => by
    rw [mergeMember, applyAll_cons, Operation.applyTo, keysOf_plain hkey, edit]
    cases h : target.get? key <;> simp [Fields.has, h, lacksMember, Fields.mergeMember]
  | .obj patch, hv, target => by
    have hslash := no_slash_merge patch hv.2
    cases hobj : (target.get? key).bind Json.fields? with
    | some fields =>
      -- The operations act inside the member, where they do what the inner patch says.
      have hlacks : lacksMember (.obj patch) (target.get? key) = lacks patch fields := by
        rw [lacksMember, hobj]
      have hmerged : target.mergeMember key (.obj patch) =
          target.insert key (.obj (Fields.mergePatch fields patch)) := by
        simp only [Fields.mergeMember, Json.mergePatch, hobj, Option.getD_some]
      rw [mergeMember, applyAll_under hkey hslash (Json.eq_obj_of_fields? hobj),
        applyAll_merge patch hv.2 fields, hlacks, hmerged]
      cases lacks patch fields <;> rfl
    | none =>
      have hno : ∀ fields, target.get? key ≠ some (.obj fields) := by
        intro fields hfields
        rw [hfields] at hobj
        cases hobj
      have hlacks : lacksMember (.obj patch) (target.get? key) = true := by
        rw [lacksMember, hobj]
      obtain ⟨op, ops, hops⟩ := exists_cons_of_ne_nil (merge_ne_nil patch hv.2 hv.1)
      have hop : '/' ∉ op.path.toList := hslash op (hops ▸ mem_cons_self)
      rw [mergeMember, hops, applyAll_under_eq_none hkey hop hno, if_pos hlacks]
  | .bool _, _, target | .int _, _, target | .float _, _, target | .str _, _, target |
      .arr _, _, target => by
    simp [mergeMember, applyAll_cons, Operation.applyTo, keysOf_plain hkey, edit, lacksMember,
      Fields.mergeMember, Json.mergePatch]

/-- The operations of a proper patch fail if they miss something, and else merge the patch. -/
theorem applyAll_merge : (patch : List (String × Json)) → Proper patch → (target : Fields) →
    applyAll (merge patch) (.obj target) =
      if lacks patch target then none else some (.obj (target.mergePatch patch))
  | [], _, target => by simp [merge, lacks, Fields.mergePatch]
  | (key, value) :: rest, h, target => by
    have hrest : lacks rest (target.mergeMember key value) = lacks rest target := by
      refine lacks_congr fun name hname => get?_mergeMember ?_
      rintro rfl
      exact h.2.1 hname
    rw [merge, applyAll_append, applyAll_mergeMember h.1 value h.2.2.1 target,
      lacks, mergePatch_cons]
    cases lacksMember value (target.get? key) with
    | true => rfl
    | false =>
      rw [if_neg Bool.false_ne_true, Option.bind_some, applyAll_merge rest h.2.2.2, hrest,
        Bool.false_or]

end

/-- **A merge patch by its operations.** The operations of a proper patch, applied to an object,
give the merge of the patch into it or fail; and they fail exactly if an object of the patch below
its top has no object at its place, or a member that it removes is absent. -/
theorem applyAll_merge_eq_mergePatch (patch target : Fields) (h : Proper patch) :
    (∀ result, applyAll (merge patch) (.obj target) = some result →
        result = Json.mergePatch (some (.obj target)) (.obj patch)) ∧
      (applyAll (merge patch) (.obj target) = none ↔ Unmet (.obj patch) (.obj target)) := by
  rw [applyAll_merge patch h target, ← lacks_iff patch h target]
  cases lacks patch target with
  | true => simp
  | false => simp [Json.mergePatch, Json.fields?, eq_comm]

/-- Sets a title, and inside the properties removes one member and changes another two levels down.
-/
def viewPatch : Fields :=
  [("title", .str "b"), ("properties", .obj [("cloud", .null), ("view", .obj [("angle", .int 3)])])]

/-- The patch merges where the properties have what it needs, and fails where they lack the view. -/
theorem applyAll_merge_eq_mergePatch_view :
    Proper viewPatch ∧
    applyAll (merge viewPatch)
        (.obj [("properties", .obj [("cloud", .int 9), ("view", .obj [("sun", .int 1)])])]) =
      some (.obj [("properties", .obj [("view", .obj [("sun", .int 1), ("angle", .int 3)])]),
            ("title", .str "b")]) ∧
    Unmet (.obj viewPatch) (.obj [("properties", .obj [("cloud", .int 9)])]) := by
  have hproper : Proper viewPatch := by
    simp [viewPatch, Proper, ProperMember, PlainKey]
  refine ⟨hproper, ?_, ?_⟩
  · cases happly : applyAll (merge viewPatch)
      (.obj [("properties", .obj [("cloud", .int 9), ("view", .obj [("sun", .int 1)])])]) with
    | some result => rw [(applyAll_merge_eq_mergePatch viewPatch _ hproper).1 result happly]; rfl
    | none => exact absurd happly (by decide +kernel)
  · exact (applyAll_merge_eq_mergePatch viewPatch _ hproper).2.mp (by decide +kernel)

end Patch

end StacCatalog
