import StacCatalog.Projection
import StacCatalog.Proofs.Json.Paths

/-!
# What is collected of an item for the paths that are included
-/

namespace StacCatalog.Selection

open List Json Comparable Fields

variable {s old : Selection} {entries : List (String × Selection)} {fields : Fields} {value : Json}
    {name : String}
  {path rest : List String} {S T : List String → Prop} {item : Fields} {paths : List (List String)}

/-! ### Selections as parts of a value -/

theorem get?_entriesJson (entries : List (String × Selection)) (name : String) :
    Fields.get? (entriesJson entries) name = (entries.lookup name).map toJson := by
  induction entries with
  | nil => simp [entriesJson, get?]
  | cons entry rest ih =>
    obtain ⟨key, s⟩ := entry
    rw [entriesJson, get?, Keyed.lookup_cons, Keyed.lookup_cons, ← get?, ih]
    split <;> rfl

/-- A selection that has, of all that stands in a value, what stands at some paths. A shared value
is there as a whole. -/
inductive Selects : Selection → Json → (List String → Prop) → Prop
  | shared {value : Json} {S : List String → Prop} (all : ∀ path, value.Holds path → S path) :
      Selects (.shared value) value S
  | fresh {entries : List (String × Selection)} {fields : Fields}
      {S : List String → Prop} (top : S [])
      (known : ∀ name s, entries.lookup name = some s → (fields.get? name).isSome = true)
      (inside : ∀ name s value, entries.lookup name = some s → fields.get? name = some value →
        Selects s value fun path => S (name :: path))
      (left : ∀ name value, entries.lookup name = none → fields.get? name = some value →
        ∀ path, value.Holds path → ¬ S (name :: path)) :
      Selects (.fresh entries) (.obj fields) S

namespace Selects

theorem congr (h : Selects s value S) (hS : ∀ path, value.Holds path → (S path ↔ T path)) :
    Selects s value T := by
  induction h generalizing T with
  | shared all => exact .shared fun path hpath => (hS path hpath).mp (all path hpath)
  | @fresh entries fields S top known inside left ih =>
    have hbelow : ∀ name value, fields.get? name = some value → ∀ path, value.Holds path →
        (S (name :: path) ↔ T (name :: path)) :=
      fun name value hget path hpath => hS (name :: path) (holds_cons.mpr ⟨value, hget, hpath⟩)
    refine .fresh ((hS [] (holds_nil _)).mp top) known ?_ ?_
    · intro name s value hlookup hget
      exact ih name s value hlookup hget (hbelow name value hget)
    · intro name value hlookup hget path hpath
      exact mt (hbelow name value hget path hpath).mpr (left name value hlookup hget path hpath)

/-- What stands at a path of a selection is what stands there in the value, if the path is selected.
-/
theorem spot?_eq_some_iff (h : Selects s value S) (path : List String) (here : Json) :
    s.toJson.spot? path = some here ↔ S path ∧ value.spot? path = some here := by
  induction h generalizing path with
  | @shared value S all =>
    rw [toJson]
    exact ⟨fun hhere => ⟨all path (holds_of_spot? hhere), hhere⟩, fun hhere => hhere.2⟩
  | @fresh entries fields S top known inside left ih =>
    rw [toJson]
    cases path with
    | nil => simp [top, Json.outline]
    | cons name rest =>
      rw [Json.spot?_cons, Json.spot?_cons, get?_entriesJson]
      cases hlookup : entries.lookup name with
      | none =>
        cases hget : get? fields name with
        | none => simp
        | some inner =>
          simp only [Option.map_none, Option.bind_none, Option.bind_some,
            reduceCtorEq, false_iff, not_and]
          intro hS hhere
          exact left name inner hlookup hget rest (holds_of_spot? hhere) hS
      | some s =>
        obtain ⟨inner, hget⟩ := Option.isSome_iff_exists.mp (known name s hlookup)
        simp only [hget, Option.map_some, Option.bind_some]
        exact ih name s inner hlookup hget rest

variable (h : Selects (.fresh entries) (.obj fields) S)

include h

theorem set (hget : fields.get? name = some value)
    (hs : Selects s value fun path => T (name :: path)) (htop : T [])
    (hothers : ∀ other path, other ≠ name → (S (other :: path) ↔ T (other :: path))) :
    Selects (.fresh (Keyed.set entries name s)) (.obj fields) T := by
  cases h with
  | fresh top known inside left =>
    refine .fresh htop ?_ ?_ ?_
    · intro other s' hlookup
      rw [Keyed.lookup_set] at hlookup
      split at hlookup
      · rename_i hother
        rw [hother, hget, Option.isSome_some]
      · exact known other s' hlookup
    · intro other s' value' hlookup hget'
      rw [Keyed.lookup_set] at hlookup
      split at hlookup
      · rename_i hother
        rw [hother, hget] at hget'
        cases hlookup
        cases hget'
        rwa [hother]
      · rename_i hother
        exact (inside other s' value' hlookup hget').congr fun path _ => hothers other path hother
    · intro other value' hlookup hget' path hpath
      rw [Keyed.lookup_set] at hlookup
      split at hlookup
      · cases hlookup
      · rename_i hother
        exact mt (hothers other path hother).mpr (left other value' hlookup hget' path hpath)

theorem top : S [] := by
  cases h with
  | fresh top => exact top

theorem member (hlookup : entries.lookup name = some s)
    (hget : fields.get? name = some value) : Selects s value fun path => S (name :: path) := by
  cases h with
  | fresh top known inside left => exact inside name s value hlookup hget

theorem not_of_absent (hlookup : entries.lookup name = none)
    (hget : fields.get? name = some value) (hpath : value.Holds path) : ¬ S (name :: path) := by
  cases h with
  | fresh top known inside left => exact left name value hlookup hget path hpath

end Selects

/-- The paths that begin with one of some names. -/
def Under (names : List String) : List String → Prop
  | [] => False
  | name :: _ => name ∈ names

mutual

theorem selects_addValue : (value : Json) → value.WellFormed → ∀ {old S}, Selects old value S →
    Selects (addValue old value) value fun _ => True
  | .obj fields, hvalue, old, S, hold => by
    rw [Json.WellFormed] at hvalue
    cases hold with
    | shared all =>
      rw [addValue]
      exact .shared fun _ _ => trivial
    | fresh top known inside left =>
      rw [addValue]
      have hmembers : ∀ entry ∈ fields, get? fields entry.1 = some entry.2 :=
        fun entry hentry => Keyed.lookup_of_mem hvalue.1 hentry
      have hadded := selects_addFields fields hvalue.2 hmembers (.fresh top known inside left)
      refine hadded.congr fun path hpath => ⟨fun _ => trivial, fun _ => ?_⟩
      cases path with
      | nil => exact .inl top
      | cons name rest =>
        obtain ⟨inner, hget, -⟩ := holds_cons.mp hpath
        exact .inr (mem_map.mpr ⟨_, Keyed.mem_of_lookup hget, rfl⟩)
  | .null, _, _, _, _ | .bool _, _, _, _, _ | .int _, _, _, _, _ | .float _, _, _,
      _, _ | .str _, _, _, _, _
  | .arr _, _, _, _, _ => by
    rw [addValue]
    · exact .shared fun _ _ => trivial
    all_goals simp

theorem selects_addFields :
    (more : List (String × Json)) → Json.WellFormedFields more → ∀ {entries fields S},
    (∀ entry ∈ more, Fields.get? fields entry.1 = some entry.2) →
    Selects (.fresh entries) (.obj fields) S →
      Selects (.fresh (addFields entries more)) (.obj fields) fun path => S path ∨
        Under (more.map Prod.fst) path
  | [], _, entries, fields, S, _, h => by
    rw [addFields]
    refine h.congr fun path _ => ⟨Or.inl, fun hpath => hpath.elim id fun hunder => ?_⟩
    cases path with
    | nil => exact hunder.elim
    | cons name rest => cases hunder
  | (name, value) :: more, hmore, entries, fields, S, hmembers, h => by
    rw [Json.WellFormedFields] at hmore
    rw [addFields]
    have hget := hmembers (name, value) mem_cons_self
    -- The member as it is now: the whole value, whatever was collected of it.
    have hmember : ∀ {s}, Selects s value (fun _ => True) →
        Selects (.fresh (Keyed.set entries name s)) (.obj fields)
          fun path => S path ∨ Under [name] path := by
      intro s hs
      refine h.set hget (hs.congr fun path _ => ⟨fun _ => .inr mem_cons_self, fun _ => trivial⟩)
        (.inl h.top) ?_
      intro other path hother
      simp [Under, hother]
    have hset : Selects (.fresh (Keyed.set entries name (match entries.lookup name with
        | some old => addValue old value
        | none => .shared value))) (.obj fields) fun path => S path ∨ Under [name] path := by
      cases hlookup : entries.lookup name with
      | none => exact hmember (.shared fun _ _ => trivial)
      | some old => exact hmember (selects_addValue value hmore.1 (h.member hlookup hget))
    refine (selects_addFields more hmore.2
      (fun entry hentry => hmembers entry (mem_cons_of_mem _ hentry)) hset).congr
      fun path _ => ?_
    cases path with
    | nil => simp [Under]
    | cons other rest => simp [Under, or_assoc]

end

/-! ### Adding the part of a path -/

def part (value : Json) (path : List String) : Selection :=
  match value, path with
  | .obj fields, name :: rest => .fresh (along fields (name :: rest))
  | value, _ => .shared value

/-- The part that a path names of an object is what the rest of the path selects of the member. -/
theorem along_cons (fields : Fields) (name : String) (rest : List String) :
    along fields (name :: rest) =
      match fields.get? name with
      | none => []
      | some value => [(name, part value rest)] := by
  rw [along]
  cases get? fields name with
  | none => rfl
  | some value => cases value <;> cases rest <;> rfl

theorem comparable_of_missing (hget : fields.get? name = none)
    (hpath : (Json.obj fields).Holds path) : Comparable (name :: rest) path ↔ path = [] := by
  cases path with
  | nil => simp
  | cons other path =>
    obtain ⟨inner, hother, -⟩ := holds_cons.mp hpath
    simp only [cons_cons, reduceCtorEq, iff_false, not_and]
    intro heq
    rw [heq, hother] at hget
    cases hget

theorem selects_nil (fields : Fields) : Selects (.fresh []) (.obj fields) (· = []) :=
  .fresh rfl (by simp) (by simp) (by simp)

theorem selects_part (value : Json) (path : List String) :
    Selects (part value path) value (Comparable path) := by
  induction path generalizing value with
  | nil => cases value <;> exact .shared fun path _ => nil_left path
  | cons name rest ih =>
    cases value with
    | obj fields =>
      rw [part, along_cons]
      cases hget : get? fields name with
      | none =>
        exact (selects_nil fields).congr fun path hpath => (comparable_of_missing hget hpath).symm
      | some inner =>
        -- From nothing, by setting the one member that the path leads to.
        refine (selects_nil fields).set hget ((ih inner).congr fun path _ => ?_)
          (nil_right _) fun other path hother => ?_
        · simp
        · simp [hother.symm]
    | _ =>
      refine .shared fun path hpath => ?_
      rw [hpath.eq_nil rfl]
      exact nil_right _

theorem Selects.of_missing (h : Selects (.fresh entries) (.obj fields) S)
    (hget : fields.get? name = none) :
    Selects (.fresh entries) (.obj fields) fun path => S path ∨ Comparable (name :: rest) path := by
  refine h.congr fun path hpath => ⟨Or.inl, fun hadded => hadded.elim id fun hcomparable => ?_⟩
  rw [(comparable_of_missing hget hpath).mp hcomparable]
  exact h.top

theorem Selects.addEntries (h : Selects (.fresh entries) (.obj fields) S)
    (hget : fields.get? name = some value) (hs : Selects s value (Comparable rest))
    (hadd : ∀ old, Selects old value (fun path => S (name :: path)) →
      Selects (old.add s) value fun path => S (name :: path) ∨ Comparable rest path) :
    Selects (.fresh (addEntries entries [(name, s)])) (.obj fields)
      fun path => S path ∨ Comparable (name :: rest) path := by
  have hothers : ∀ other path, other ≠ name →
      (S (other :: path) ↔ S (other :: path) ∨ Comparable (name :: rest) (other :: path)) := by
    intro other path hother
    simp [hother.symm]
  have htop : S [] ∨ Comparable (name :: rest) [] := .inr (nil_right _)
  rw [Selection.addEntries, Selection.addEntries]
  cases hlookup : entries.lookup name with
  | some old =>
    have hold := h.member hlookup hget
    exact h.set hget ((hadd old hold).congr fun path _ => by simp) htop hothers
  | none =>
    refine h.set hget (hs.congr fun path hpath => ?_) htop hothers
    -- Nothing of the member was selected before.
    simp [h.not_of_absent hlookup hget hpath]

/-- **Adding the part of a path** to what was collected of a value joins the paths of both. -/
theorem selects_add (hvalue : value.WellFormed) (hold : Selects old value S) :
    Selects (old.add (part value path)) value fun path' => S path' ∨ Comparable path path' := by
  induction path generalizing value old S with
  | nil =>
    have hwhole : part value [] = .shared value := by cases value <;> rfl
    rw [hwhole, add]
    exact (selects_addValue value hvalue hold).congr fun path _ => by simp
  | cons name rest ih =>
    cases value with
    | obj fields =>
      cases hold with
      | shared all =>
        rw [part, add]
        exact .shared fun path hpath => .inl (all path hpath)
      | fresh top known inside left =>
        have hentries := Selects.fresh top known inside left
        rw [part, add, along_cons]
        cases hget : get? fields name with
        | none => exact hentries.of_missing hget
        | some inner =>
          exact hentries.addEntries hget (selects_part inner rest) fun old hold =>
            ih (wellFormed_of_get? hvalue hget) hold
    | _ =>
      show Selects (addValue old _) _ _
      refine (selects_addValue _ hvalue hold).congr fun path hpath => ?_
      simp [hpath.eq_nil rfl]

/-- Including a path joins what it can be compared with to what was collected. -/
theorem selects_includePath (hitem : (Json.obj item).WellFormed)
    (h : Selects (.fresh entries) (.obj item) S) (hpath : path ≠ []) :
    Selects (.fresh (includePath item entries path)) (.obj item)
      fun path' => S path' ∨ Comparable path path' := by
  cases path with
  | nil => exact absurd rfl hpath
  | cons name rest =>
    rw [includePath, along_cons]
    cases hget : get? item name with
    | none => exact h.of_missing hget
    | some value =>
      have hs := selects_part value rest
      dsimp only
      cases hpart : part value rest with
      | fresh parts =>
        rw [hpart] at hs
        refine h.addEntries hget hs fun old hold => ?_
        rw [← hpart]
        exact selects_add (wellFormed_of_get? hitem hget) hold
      | shared whole =>
        rw [hpart] at hs
        cases hs with
        | shared all =>
          dsimp only
          refine h.set hget (.shared fun path hpath => ?_) (.inr (nil_right _))
            fun other path hother => ?_
          · exact .inr (cons_cons.mpr ⟨rfl, all path hpath⟩)
          · simp [hother.symm]

theorem selects_foldl (hitem : (Json.obj item).WellFormed) (hpaths : ∀ path ∈ paths, path ≠ [])
    (h : Selects (.fresh entries) (.obj item) S) :
    Selects (.fresh (paths.foldl (includePath item) entries)) (.obj item)
      fun path => S path ∨ ∃ included ∈ paths, Comparable included path := by
  induction paths generalizing entries S with
  | nil => exact h.congr fun path _ => by simp
  | cons first rest ih =>
    have hfirst := selects_includePath hitem h (hpaths first mem_cons_self)
    refine (ih (fun path hpath => hpaths path (mem_cons_of_mem _ hpath)) hfirst).congr fun path _ =>
      ?_
    simp [or_assoc]

/-- **What is collected of an item**: all that stands at paths that can be compared with an included
one, or everything if none is included. -/
theorem selects_gather (hitem : (Json.obj item).WellFormed) (hpaths : ∀ path ∈ paths, path ≠ []) :
    Selects (.fresh (gather item paths)) (.obj item)
      fun path => path = [] ∨ paths = [] ∨ ∃ included ∈ paths, Comparable included path := by
  unfold gather
  cases paths with
  | nil =>
    have hlookup := Keyed.lookup_map item fun (_ : String) value => Selection.shared value
    refine .fresh (.inl rfl) ?_ ?_ ?_
    · intro name s hs
      rw [isEmpty_nil, if_pos rfl, hlookup, Option.map_eq_some_iff] at hs
      obtain ⟨value, hvalue, -⟩ := hs
      exact Option.isSome_of_eq_some hvalue
    · intro name s value hs hget
      rw [isEmpty_nil, if_pos rfl, hlookup, ← get?, hget] at hs
      cases hs
      exact .shared fun path _ => .inr (.inl rfl)
    · intro name value hs hget
      rw [isEmpty_nil, if_pos rfl, hlookup, ← get?, hget] at hs
      cases hs
  | cons first rest =>
    refine (selects_foldl hitem hpaths (selects_nil item)).congr fun path _ => ?_
    simp

end StacCatalog.Selection
