import StacCatalog.Proofs.Projection.Including

/-!
# What is left of a collection when paths are excluded
-/

namespace StacCatalog

open List Json Fields

/-- Whether something at or below a path can be compared with none of the excluded paths. -/
def Spared (value : Json) (excluded : List (List String)) (path : List String) : Prop :=
  ∃ longer, path <+: longer ∧ value.Holds longer ∧ ∀ e ∈ excluded, ¬ Comparable e longer

namespace Spared

variable {value inner : Json} {fields : Fields} {excluded : List (List String)} {name : String}
    {path rest : List String}

theorem of_prefix {shorter : List String} (h : Spared value excluded path)
    (hshorter : shorter <+: path) : Spared value excluded shorter := by
  obtain ⟨longer, hlonger, hholds, hfree⟩ := h
  exact ⟨longer, hshorter.trans hlonger, hholds, hfree⟩

theorem cons_iff (hget : fields.get? name = some inner) :
    Spared (.obj fields) [name :: rest] (name :: path) ↔ Spared inner [rest] path := by
  simp only [Spared, mem_singleton, forall_eq]
  constructor
  · rintro ⟨longer, ⟨more, rfl⟩, hholds, hfree⟩
    obtain ⟨inner', hget', hinner⟩ := holds_cons.mp hholds
    obtain rfl : inner = inner' := Option.some.inj (hget.symm.trans hget')
    exact ⟨path ++ more, prefix_append .., hinner, by simpa using hfree⟩
  · rintro ⟨longer, hlonger, hholds, hfree⟩
    exact ⟨name :: longer, cons_prefix_cons.mpr ⟨rfl, hlonger⟩,
      holds_cons.mpr ⟨inner, hget, hholds⟩, by simpa using hfree⟩

theorem not_of_comparable (h : ∀ longer, value.Holds longer → Comparable rest longer) :
    ¬ Spared value [rest] path := by
  rintro ⟨longer, -, hholds, hfree⟩
  exact hfree rest mem_cons_self (h longer hholds)

theorem nil_iff :
    Spared value [rest] [] ↔ ∃ name, value.Holds [name] ∧ Spared value [rest] [name] := by
  constructor
  · rintro ⟨longer, -, hholds, hfree⟩
    cases longer with
    | nil => exact absurd (Comparable.nil_right rest) (hfree rest mem_cons_self)
    | cons name more =>
      have hname : [name] <+: name :: more := cons_prefix_cons.mpr ⟨rfl, nil_prefix⟩
      exact ⟨name, holds_of_prefix hholds hname, name :: more, hname, hholds, hfree⟩
  · rintro ⟨name, -, hspared⟩
    exact hspared.of_prefix nil_prefix

end Spared

namespace Selection

variable {entries : List (String × Selection)} {fields : Fields} {name : String}
    {path : List String}

/-! ### Excluding from the object that was collected -/

theorem entriesJson_set (entries : List (String × Selection)) (name : String) (s : Selection) :
    entriesJson (Keyed.set entries name s) = Fields.insert (entriesJson entries) name s.toJson := by
  induction entries with
  | nil => rfl
  | cons entry rest ih =>
    obtain ⟨key, old⟩ := entry
    simp only [Keyed.set, entriesJson, Fields.insert] at ih ⊢
    split
    · simp only [entriesJson]
    · simp only [entriesJson, ih]

theorem entriesJson_erase (entries : List (String × Selection)) (name : String) :
    entriesJson (Keyed.erase entries name) = erase (entriesJson entries) name := by
  induction entries with
  | nil => rfl
  | cons entry rest ih =>
    obtain ⟨key, old⟩ := entry
    simp only [Keyed.erase, entriesJson, erase, filter_cons] at ih ⊢
    split
    · simp only [entriesJson, ih]
    · exact ih

theorem isEmpty_entriesJson (entries : List (String × Selection)) :
    (entriesJson entries).isEmpty = entries.isEmpty := by
  cases entries <;> rfl

/-- Whatever a collection shares with the item, excluding a path changes the object that was
collected alike. -/
theorem entriesJson_excludePath (entries : List (String × Selection)) (item : Fields)
    (path : List String) :
    entriesJson (excludePath entries item path).1 = excludeShared (entriesJson entries) path := by
  induction path generalizing entries item with
  | nil => rfl
  | cons name rest ih =>
    rw [excludePath, excludeShared, get?_entriesJson]
    cases hlookup : entries.lookup name with
    | none => rfl
    | some s =>
      cases s with
      | shared value =>
        cases value with
        | obj inner =>
          simp only [Option.map_some, toJson]
          split
          · exact entriesJson_erase entries name
          · split
            · exact entriesJson_erase entries name
            · exact entriesJson_set entries name _
        | _ => exact entriesJson_erase entries name
      | fresh inner =>
        simp only [Option.map_some, toJson]
        split
        · exact entriesJson_erase entries name
        · rw [apply_ite entriesJson, entriesJson_erase, entriesJson_set,
            toJson, ← isEmpty_entriesJson, ih]

theorem entriesJson_exclude (entries : List (String × Selection)) (item : Fields)
    (paths : List (List String)) :
    entriesJson (exclude entries item paths).1 =
      paths.foldl excludeShared (entriesJson entries) := by
  unfold exclude
  induction paths generalizing entries item with
  | nil => rfl
  | cons path rest ih =>
    rw [foldl_cons, foldl_cons, ← entriesJson_excludePath entries item path]
    exact ih _ _

/-! ### One excluded path -/

theorem isEmpty_eq_false_iff : fields.isEmpty = false ↔ ∃ name, fields.has name = true := by
  cases fields with
  | nil => simp [has, get?]
  | cons entry rest =>
    obtain ⟨key, value⟩ := entry
    exact ⟨fun _ => ⟨key, by simp [has, get?]⟩, fun _ => rfl⟩

theorem get?_excludeShared_of_ne {other : String} (h : other ≠ name) (rest : List String) :
    get? (excludeShared fields (name :: rest)) other = fields.get? other := by
  have herase : get? (erase fields name) other = fields.get? other := by
    rw [get?_erase, if_neg h]
  rw [excludeShared]
  split
  · rfl
  · split
    · exact herase
    · dsimp only
      split
      · exact herase
      · rw [get?_insert, if_neg h]
  · exact herase

/-- The member that an excluded path begins with: it is gone if the path ends there, or if nothing
is left in it. -/
theorem get?_excludeShared_self (name : String) (rest : List String) :
    get? (excludeShared fields (name :: rest)) name = match fields.get? name with
      | some (.obj inner) =>
        if rest = [] ∨ (excludeShared inner rest).isEmpty then none
          else some (.obj (excludeShared inner rest))
      | _ => none := by
  have herase : get? (erase fields name) name = none := by
    rw [get?_erase, if_pos rfl]
  rw [excludeShared]
  cases hget : get? fields name with
  | none => exact hget
  | some value =>
    cases value with
    | obj inner =>
      cases rest with
      | nil => simpa using herase
      | cons next rest =>
        simp only [isEmpty_cons, Bool.false_eq_true, if_false, reduceCtorEq, false_or]
        split
        · exact herase
        · rw [get?_insert, if_pos rfl]
    | _ => exact herase

theorem spot?_excluded_member {inner : Fields} {rest : List String} {here : Json}
    (ih : rest ≠ [] →
      ∀ {path : List String} {here : Json}, path ≠ [] →
        ((obj (excludeShared inner rest)).spot? path = some here ↔
          (obj inner).spot? path = some here ∧ Spared (.obj inner) [rest] path)) :
    ((if rest = [] ∨ (excludeShared inner rest).isEmpty then none
        else some (obj (excludeShared inner rest))).bind (·.spot? path)) = some here ↔
      (obj inner).spot? path = some here ∧ Spared (.obj inner) [rest] path := by
  by_cases hrest : rest = []
  · have hgone : ¬ Spared (.obj inner) [rest] path := by
      rw [hrest]
      exact Spared.not_of_comparable fun longer _ => Comparable.nil_left longer
    rw [if_pos (.inl hrest)]
    simp [hgone]
  -- An object is left on the way exactly if one of its members is.
  have hleft : (excludeShared inner rest).isEmpty = false ↔ Spared (.obj inner) [rest] [] := by
    simp only [isEmpty_eq_false_iff, Spared.nil_iff, ← holds_singleton]
    refine exists_congr fun name => ?_
    constructor
    · intro h
      obtain ⟨here, hhere⟩ := h.exists_spot
      obtain ⟨hbefore, hspared⟩ := (ih hrest (cons_ne_nil _ _)).mp hhere
      exact ⟨holds_of_spot? hbefore, hspared⟩
    · rintro ⟨hholds, hspared⟩
      obtain ⟨here, hhere⟩ := hholds.exists_spot
      exact holds_of_spot? ((ih hrest (cons_ne_nil _ _)).mpr ⟨hhere, hspared⟩)
  cases hempty : (excludeShared inner rest).isEmpty with
  | false =>
    simp only [hrest, Bool.false_eq_true, or_self, if_false, Option.bind_some]
    cases path with
    | nil => simp [outline, hleft.mp hempty]
    | cons name path => exact ih hrest (cons_ne_nil _ _)
  | true =>
    have hgone : ¬ Spared (.obj inner) [rest] path := by
      intro hspared
      rw [hleft.mpr (hspared.of_prefix nil_prefix)] at hempty
      cases hempty
    simp [hgone]

/-- **One excluded path.** What stands at a path is left if something at or below it cannot be
compared with the excluded one. -/
theorem spot?_excludeShared {excluded : List String} (hexcluded : excluded ≠ []) (hpath : path ≠ [])
    (here : Json) :
    (obj (excludeShared fields excluded)).spot? path = some here ↔
      (obj fields).spot? path = some here ∧ Spared (.obj fields) [excluded] path := by
  induction excluded generalizing fields path here with
  | nil => exact absurd rfl hexcluded
  | cons name rest ih =>
    cases path with
    | nil => exact absurd rfl hpath
    | cons other path =>
      rw [spot?_cons, spot?_cons]
      by_cases hother : other = name
      · rw [hother, get?_excludeShared_self]
        cases hget : get? fields name with
        | none => simp
        | some value =>
          rw [Option.bind_some, Spared.cons_iff hget]
          cases value with
          | obj inner => exact spot?_excluded_member fun hrest _ _ hpath => ih hrest hpath _
          | _ =>
            refine ⟨nofun, fun h => absurd h.2 (Spared.not_of_comparable fun longer hlonger => ?_)⟩
            rw [hlonger.eq_nil rfl]
            exact Comparable.nil_right rest
      · -- The path itself is not touched.
        rw [get?_excludeShared_of_ne hother]
        refine ⟨fun h => ⟨h, other :: path, prefix_rfl, ?_, ?_⟩, fun h => h.1⟩
        · rw [← spot?_cons] at h
          exact holds_of_spot? h
        · simp [Ne.symm hother]

/-- **All excluded paths.** What stands at a path is left if something at or below it can be
compared with none of them. -/
theorem spot?_foldl_excludeShared {excluded : List (List String)}
    (hexcluded : ∀ e ∈ excluded, e ≠ []) (hpath : path ≠ []) (here : Json) :
    (obj (excluded.foldl excludeShared fields)).spot? path = some here ↔
      (obj fields).spot? path = some here ∧ Spared (.obj fields) excluded path := by
  induction excluded generalizing fields with
  | nil =>
    refine ⟨fun h => ⟨h, path, prefix_rfl, holds_of_spot? h, by simp⟩, fun h => h.1⟩
  | cons first rest ih =>
    have hstep : ∀ {path : List String}, path ≠ [] → ∀ here,
        (obj (excludeShared fields first)).spot? path = some here ↔
          (obj fields).spot? path = some here ∧ Spared (.obj fields) [first] path :=
      fun hpath here => spot?_excludeShared (hexcluded first mem_cons_self) hpath here
    rw [foldl_cons, ih fun e he => hexcluded e (mem_cons_of_mem _ he), hstep hpath,
      and_assoc, and_congr_right_iff]
    intro _
    constructor
    · rintro ⟨-, longer, hlonger, hholds, hrest⟩
      obtain ⟨here, hhere⟩ := hholds.exists_spot
      -- What is free of the others below stays so further down, where it is free of the first one
      -- too.
      obtain ⟨-, last, hlast, hholds, hfirst⟩ := (hstep (hlonger.ne_nil hpath) here).mp hhere
      refine ⟨last, hlonger.trans hlast, hholds, forall_mem_cons.mpr
        ⟨hfirst first mem_cons_self, ?_⟩⟩
      exact fun e he hcomparable => hrest e he (hcomparable.of_prefix hlast)
    · rintro ⟨longer, hlonger, hholds, hfree⟩
      obtain ⟨hfirst, hrest⟩ := forall_mem_cons.mp hfree
      obtain ⟨here, hhere⟩ := hholds.exists_spot
      have hspared : Spared (.obj fields) [first] longer :=
          ⟨longer, prefix_rfl, hholds, by simpa using hfirst⟩
      have hleft := (hstep (hlonger.ne_nil hpath) here).mpr ⟨hhere, hspared⟩
      exact ⟨hspared.of_prefix hlonger, longer, hlonger, holds_of_spot? hleft, hrest⟩

end Selection

end StacCatalog
