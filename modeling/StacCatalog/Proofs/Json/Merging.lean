import StacCatalog.Json.Merge
import StacCatalog.Proofs.Json.Fields
import StacCatalog.Proofs.Json.Paths

/-!
# Deep updates by their paths
-/

namespace StacCatalog

open List Fields

namespace Fields

variable {into new : Fields} {name : String} {value : Json}

theorem get?_deepUpdate (h : new.names.Nodup) (name : String) : (into.deepUpdate new).get? name =
    ((new.get? name).map (deepValue (into.get? name))).or (into.get? name) := by
  induction new generalizing into with
  | nil => rfl
  | cons entry rest ih =>
    obtain ⟨key, value⟩ := entry
    obtain ⟨hkey, hrest⟩ := nodup_cons.mp h
    have hget : get? ((key, value) :: rest) name =
        if name = key then some value else get? rest name :=
      Keyed.lookup_cons key name value rest
    rw [deepUpdate, ih hrest, get?_insert, hget]
    by_cases hname : name = key
    · rw [if_pos hname, if_pos hname, hname, get?_eq_none_iff.mpr hkey]
      rfl
    · rw [if_neg hname, if_neg hname]

/-- An update by what is there already changes nothing. -/
theorem deepUpdate_eq_self
    (h : ∀ name value,
      (name, value) ∈ new → into.get? name = some (deepValue (into.get? name) value)) :
    into.deepUpdate new = into := by
  induction new with
  | nil => rfl
  | cons entry rest ih =>
    rw [deepUpdate, insert_get? (h _ _ mem_cons_self), ih fun name value hmem => h name value
      (mem_cons_of_mem _ hmem)]

theorem deepValue_none (value : Json) : deepValue none value = value := by
  cases value <;> rfl

theorem isObj_deepValue (old : Option Json) (value : Json) :
    (deepValue old value).isObj = value.isObj := by
  cases value with
  | obj new => rcases old with _ | (_ | _ | _ | _ | _ | _ | fields) <;> rfl
  | _ => rfl

mutual

theorem deepValue_deepValue : (value : Json) → value.WellFormed → ∀ old,
    deepValue (some (deepValue old value)) value = deepValue old value
  | .obj new, h, old => by
    rw [Json.WellFormed] at h
    have hagain (fields : Fields) :
        deepUpdate (fields.deepUpdate new) new = fields.deepUpdate new := by
      refine deepUpdate_eq_self fun name value hmem => ?_
      have hget : get? new name = some value := Keyed.lookup_of_mem h.1 hmem
      rw [get?_deepUpdate h.1, hget, Option.map_some, Option.some_or,
        deepValue_entries new h.2 name value hmem]
    have hself : deepUpdate new new = new := by
      refine deepUpdate_eq_self fun name value hmem => ?_
      have hget : get? new name = some value := Keyed.lookup_of_mem h.1 hmem
      have hvalue := deepValue_entries new h.2 name value hmem none
      rw [deepValue_none] at hvalue
      rw [hget, hvalue]
    rcases old with _ | (_ | _ | _ | _ | _ | _ | fields) <;> simp only [deepValue, hself, hagain]
  | .null, _, _ | .bool _, _, _ | .int _, _, _ | .float _, _, _ | .str _, _, _ | .arr _, _, _ =>
    by simp only [deepValue]

theorem deepValue_entries : (new : List (String × Json)) → Json.WellFormedFields new → ∀ name value,
    (name, value) ∈ new → ∀ old, deepValue (some (deepValue old value)) value = deepValue old value
  | [], _, _, _, hmem => nomatch hmem
  | (_, first) :: rest, h, name, value, hmem => by
    rw [Json.WellFormedFields] at h
    rcases mem_cons.mp hmem with heq | hmem
    · cases heq
      exact deepValue_deepValue first h.1
    · exact deepValue_entries rest h.2 name value hmem

end

end Fields

namespace Json

/-- No beginning of the path short of the whole ends at something other than an object. -/
def OpenAbove (value : Json) (path : List String) : Prop :=
  ∀ shorter, shorter <+: path → shorter ≠ path → ∀ inner, value.at? shorter = some inner →
    inner.isObj = true

variable {fields : Fields} {name : String} {value inner : Json} {path rest : List String}

theorem openAbove_cons : (obj fields).OpenAbove (name :: rest) ↔
    ∀ inner, fields.get? name = some inner → inner.OpenAbove rest := by
  constructor
  · intro h inner hget shorter hshorter hne here hhere
    refine h (name :: shorter) (cons_prefix_cons.mpr ⟨rfl, hshorter⟩)
      (fun heq => hne (cons.inj heq).2) here ?_
    rwa [at?, hget]
  · rintro h (_ | ⟨first, shorter⟩) hshorter hne here hhere
    · cases hhere
      rfl
    · obtain ⟨rfl, hrest⟩ := cons_prefix_cons.mp hshorter
      obtain ⟨inner, hget, hinner⟩ := Option.bind_eq_some_iff.mp hhere
      exact h inner hget shorter hrest (fun heq => hne (congrArg (first :: ·) heq)) here hinner

theorem not_openAbove (h : value.isObj = false) (name : String) (rest : List String) :
    ¬ value.OpenAbove (name :: rest) := by
  intro hopen
  have hobj := hopen [] nil_prefix (cons_ne_nil name rest).symm value (at?.eq_1 value)
  exact Bool.false_ne_true (h.symm.trans hobj)

/-- What an update leaves at a path, by what the new value and the old one have there. -/
theorem at?_deepValue (hinner : inner.isObj = false) (h : value.WellFormed) (old : Option Json)
    (path : List String) :
    (Fields.deepValue old value).at? path = some inner ↔
      value.at? path = some inner ∨
      old.bind (·.at? path) = some inner ∧ value.at? path = none ∧ value.OpenAbove path := by
  induction path generalizing value old with
  | nil =>
    have hsame : deepValue old value = inner ↔ value = inner := by
      cases value with
      | obj new =>
        have hobj := isObj_deepValue old (.obj new)
        constructor
        · rintro rfl
          exact absurd (hinner.symm.trans hobj) Bool.false_ne_true
        · rintro rfl
          cases hinner
      | _ => exact Iff.rfl
    simp [at?, hsame]
  | cons name rest ih =>
    cases value with
    | obj new =>
      rcases old with _ | old
      · simp [deepValue_none]
      · cases old with
        | obj fields =>
          have hnames : (names new).Nodup := by
            rw [WellFormed] at h
            exact h.1
          simp only [deepValue, at?, get?_deepUpdate hnames, openAbove_cons,
            Option.bind_some]
          cases hget : get? new name with
          | none => simp
          | some here => simpa using ih (wellFormed_of_get? h hget) (get? fields name)
        | _ => simp [deepValue, at?]
    | _ => simpa [deepValue, at?] using fun _ => not_openAbove rfl name rest

/-- An update of one nested map by another merges the two with the new one first, and to do it again
changes nothing. -/
theorem deepUpdate_right_biased (into new : Fields) (h : (obj new).WellFormed) :
    ∃ merged, (obj into).deepUpdate (obj new) = .ok merged ∧
      (∀ path inner, inner.isObj = false →
        (merged.at? path = some inner ↔
          (obj new).at? path = some inner ∨
          (obj into).at? path = some inner ∧ (obj new).at? path = none ∧
          (obj new).OpenAbove path)) ∧
      merged.deepUpdate (obj new) = .ok merged := by
  have hupdate (fields : Fields) : (obj fields).deepUpdate (obj new) =
      .ok (deepValue (some (obj fields)) (obj new)) := by
    cases new <;> rfl
  refine ⟨_, hupdate into, fun path inner hinner => at?_deepValue hinner h (some (obj into)) path,
    ?_⟩
  have hagain := deepValue_deepValue (obj new) h (some (obj into))
  simp only [deepValue] at hagain hupdate ⊢
  rw [hupdate, hagain]

/-- Below a number nothing is kept, and in an object what the new one does not name. -/
theorem deepUpdate_right_biased_bands :
    let into : Fields := [("b", .obj [("x", .int 1)]), ("c", .obj [("x", .int 2), ("y", .int 3)])]
    let new : Fields := [("b", .int 4), ("c", .obj [("x", .int 5)])]
    (obj new).WellFormed ∧ ∃ merged, (obj into).deepUpdate (obj new) = .ok merged ∧
      merged.at? ["c", "y"] = some (.int 3) ∧ merged.at? ["b", "x"] ≠ some (.int 1) ∧
      merged.deepUpdate (obj new) = .ok merged := by
  intro into new
  have hnew : (obj new).WellFormed := by
    simp [new, WellFormed, WellFormedFields]
  obtain ⟨merged, hmerged, hat, hagain⟩ := deepUpdate_right_biased into new hnew
  refine ⟨hnew, merged, hmerged, (hat _ _ rfl).mpr (.inr ⟨rfl, rfl, openAbove_cons.mpr ?_⟩),
    fun hlost => ?_, hagain⟩
  · rintro inner hget
    cases hget
    exact openAbove_cons.mpr nofun
  · rcases (hat _ _ rfl).mp hlost with hnew | ⟨-, -, hopen⟩
    · cases hnew
    · cases hopen ["b"] (by decide) (by decide) (.int 4) rfl

end Json
end StacCatalog
