import StacCatalog.Filter.Basic
import StacCatalog.Proofs.Queryables.History

/-!
# Published names and what filters make of them
-/

namespace StacCatalog

open List Outcome Fields

variable {fields : Fields} {field : Queryables.FieldDef} {name : String} {definition : Json}
  {content : Queryables.Content} {full : String} {top : Fields}

namespace Mapping

variable {path : List String} {found : Json}

/-! ### Fields by their paths -/

def children (definition : Json) : Fields :=
  match definition with
  | .obj entries =>
    match get? entries "properties" with
    | some (.obj fields) => fields
    | _ => []
  | _ => []

mutual

/-- The paths to the fields below a definition. -/
def pathsBelow : Json → List (List String × Json)
  | .obj entries => pathsInside entries
  | _ => []

/-- The paths to the fields below a definition with the given entries. -/
def pathsInside : List (String × Json) → List (List String × Json)
  | [] => []
  | (k, v) :: rest => if k = "properties" then pathsOf v else pathsInside rest

/-- The paths to the fields that an object defines, and below them. -/
def pathsOf : Json → List (List String × Json)
  | .obj fields => fieldPaths fields
  | _ => []

/-- The paths to fields and to all fields below them, each with the definition it leads to. -/
def fieldPaths : List (String × Json) → List (List String × Json)
  | [] => []
  | (name, definition) :: rest =>
    ([name], definition) :: (pathsBelow definition).map (fun field => (name :: field.1, field.2)) ++
      fieldPaths rest

end

def dotted (path : List String) : String :=
  ".".intercalate path

theorem children_cons (entry : String × Json) (rest : Fields) :
    children (.obj (entry :: rest)) =
      if entry.1 = "properties" then children (.single "properties" entry.2)
        else children (.obj rest) := by
  rw [children, get?, Keyed.lookup_cons]
  by_cases h : entry.1 = "properties"
  · rw [if_pos h, if_pos h.symm]
    rfl
  · rw [if_neg h, if_neg (Ne.symm h)]
    rfl

theorem pathsBelow_eq (definition : Json) :
    pathsBelow definition = fieldPaths (children definition) := by
  cases definition with
  | obj entries =>
    rw [pathsBelow]
    induction entries with
    | nil => rfl
    | cons entry rest ih =>
      rw [pathsInside, children_cons]
      split
      · cases entry.2 <;> rfl
      · exact ih
  | _ => rfl

theorem mem_fieldPaths_cons (name : String) (definition : Json) :
    (path, found) ∈ fieldPaths ((name, definition) :: fields) ↔
      (path = [name] ∧ found = definition ∨
        ∃ rest, path = name :: rest ∧ (rest, found) ∈ fieldPaths (children definition)) ∨
      (path, found) ∈ fieldPaths fields := by
  rw [fieldPaths, mem_append, mem_cons, pathsBelow_eq]
  simp [and_comm, eq_comm]

theorem mem_fieldPaths :
    (path, found) ∈ fieldPaths fields ↔
      ∃ name definition, (name, definition) ∈ fields ∧
        (path = [name] ∧ found = definition ∨
          ∃ rest, path = name :: rest ∧ (rest, found) ∈ fieldPaths (children definition)) := by
  induction fields with
  | nil => simp [fieldPaths]
  | cons entry others ih =>
    rw [mem_fieldPaths_cons, ih]
    simp only [mem_cons, Prod.ext_iff, or_and_right, exists_or]
    simp

theorem mem_fieldPaths_singleton (h : (name, definition) ∈ fields) :
    ([name], definition) ∈ fieldPaths fields :=
  mem_fieldPaths.mpr ⟨name, definition, h, .inl ⟨rfl, rfl⟩⟩

theorem ne_nil_of_mem_fieldPaths (h : (path, found) ∈ fieldPaths fields) : path ≠ [] := by
  rcases mem_fieldPaths.mp h with ⟨name, definition, -, ⟨rfl, -⟩ | ⟨rest, rfl, -⟩⟩ <;>
    exact cons_ne_nil _ _

theorem dotted_cons (h : path ≠ []) (name : String) :
    dotted (name :: path) = name ++ "." ++ dotted path := by
  cases path with
  | nil => exact absurd rfl h
  | cons second rest => exact String.intercalate_cons_cons

theorem toList_dotted_cons (h : path ≠ []) (name : String) :
    (dotted (name :: path)).toList = name.toList ++ '.' :: (dotted path).toList := by
  rw [dotted_cons h, String.toList_append, String.toList_append]
  simp

theorem dotted_singleton (name : String) : dotted [name] = name :=
  String.intercalate_singleton

end Mapping

namespace Queryables

open Mapping

theorem mem_joinLevels {a b : List (List FieldDef)} :
    field ∈ (joinLevels a b).flatten ↔ field ∈ a.flatten ∨ field ∈ b.flatten := by
  fun_induction joinLevels a b with
  | case1 b => simp
  | case2 a => simp
  | case3 x xs y ys ih =>
    simp only [flatten_cons, mem_append, ih]
    grind

theorem fullName_dotted {path : List String} (h : path ≠ []) (parent : Option String)
    (name : String) :
    fullName (some (fullName parent name)) (dotted path) =
      fullName parent (dotted (name :: path)) := by
  rw [dotted_cons h]
  cases parent with
  | none => rfl
  | some p => simp only [fullName, String.append_assoc]

theorem mem_fieldLevels (parent : Option String) (fields : Fields) (full : String) (found : Json) :
    (full, found) ∈ (fieldLevels parent fields).flatten ↔
      ∃ path, (path, found) ∈ fieldPaths fields ∧ full = fullName parent (dotted path) := by
  -- One statement for each of the functions that walk down the mapping together.
  revert full found
  refine fieldLevels.induct (fun parent d => ∀ full found,
    (full, found) ∈ (levelsBelow parent d).flatten ↔
      ∃ path, (path, found) ∈ pathsBelow d ∧ full = fullName (some parent) (dotted path))
    (fun parent entries => ∀ full found, (full, found) ∈ (levelsInside parent entries).flatten ↔
      ∃ path, (path, found) ∈ pathsInside entries ∧ full = fullName (some parent) (dotted path))
    (fun parent d => ∀ full found, (full, found) ∈ (levelsOf parent d).flatten ↔
      ∃ path, (path, found) ∈ pathsOf d ∧ full = fullName (some parent) (dotted path))
    (fun parent fields => ∀ full found, (full, found) ∈ (fieldLevels parent fields).flatten ↔
      ∃ path, (path, found) ∈ fieldPaths fields ∧ full = fullName parent (dotted path))
    ?_ ?_ ?_ ?_ ?_ ?_ ?_ ?_ ?_ parent fields
  · intro parent entries ih
    simpa only [levelsBelow, pathsBelow] using ih
  · intro d parent hd full found
    cases d with
    | obj entries => exact absurd rfl (hd entries)
    | _ => simp [levelsBelow, pathsBelow]
  · intro parent fields ih
    simpa only [levelsOf, pathsOf] using ih
  · intro d parent hd full found
    cases d with
    | obj entries => exact absurd rfl (hd entries)
    | _ => simp [levelsOf, pathsOf]
  · intro parent full found
    simp [levelsInside, pathsInside]
  · intro parent v rest ih
    simpa only [levelsInside, pathsInside, if_true] using ih
  · intro parent k v rest hk ih
    simpa only [levelsInside, pathsInside, if_neg hk] using ih
  · intro parent full found
    simp [fieldLevels, fieldPaths]
  · intro parent k v rest ihBelow ihRest full found
    rw [fieldLevels, mem_joinLevels, flatten_cons, mem_append, mem_singleton, ihBelow, ihRest,
      pathsBelow_eq]
    simp only [mem_fieldPaths_cons, or_and_right, exists_or]
    refine or_congr_left (or_congr (by simp [dotted_singleton, and_comm]) ⟨?_, ?_⟩)
    · rintro ⟨path, hpath, rfl⟩
      exact ⟨k :: path, ⟨path, rfl, hpath⟩, fullName_dotted
        (ne_nil_of_mem_fieldPaths hpath) parent k⟩
    · rintro ⟨_, ⟨path, rfl, hpath⟩, rfl⟩
      exact ⟨path, hpath, (fullName_dotted (ne_nil_of_mem_fieldPaths hpath) parent k).symm⟩

theorem mem_allFields {found : Json} :
    (full, found) ∈ allFields top ↔ ∃ path, (path, found) ∈ fieldPaths top ∧ full = dotted path :=
  mem_fieldLevels none top full found

end Queryables

namespace Mapping

/-! ### Mappings -/

/-- Whether a definition is one: an object, whose fields are an object and whose type is a text,
where it has them. -/
def isDefinition (definition : Json) : Bool :=
  match definition with
  | .obj entries =>
    ((get? entries "properties").all fun fields => fields matches .obj _) &&
      ((get? entries "type").all fun type => type matches .str _)
  | _ => false

theorem exists_of_isDefinition (h : isDefinition definition = true) :
    ∃ entries, definition = .obj entries ∧
      (∀ fields, get? entries "properties" = some fields → ∃ inner, fields = .obj inner) ∧
      (getD entries "type").hashable = .ok () := by
  cases definition with
  | obj entries =>
    obtain ⟨hfields, htype⟩ := Bool.and_eq_true_iff.mp h
    refine ⟨entries, rfl, fun fields hget => ?_, ?_⟩
    · rw [hget] at hfields
      cases fields with
      | obj inner => exact ⟨inner, rfl⟩
      | _ => cases hfields
    · unfold Fields.getD
      cases hget : get? entries "type" with
      | none => rfl
      | some kind =>
        rw [hget] at htype
        cases kind with
        | str text => rfl
        | _ => cases htype
  | _ => cases h

/-- Whether a field is one to be queried: it has a type, and is not disabled. -/
def isQueryable (definition : Json) : Bool :=
  match definition with
  | .obj entries => (getD entries "type").truthy && (get? entries "enabled").all Json.truthy
  | _ => false

def itemProperties (top : Fields) : Fields :=
  children (getD top "properties")

/-- Fields of a mapping whose names tell where they are. -/
structure Orderly (top : Fields) : Prop where
  unique : (names top).Nodup
  definitions : ∀ field ∈ fieldPaths top, isDefinition field.2 = true
  dotFree : ∀ field ∈ fieldPaths top, ∀ name ∈ field.1, '.' ∉ name.toList
  /-- No field at the top has the name of one right below `properties`. -/
  apart : ∀ name ∈ names (itemProperties top), name ∉ names top

namespace Orderly

variable {top : Fields}

theorem dotFree_top (h : Orderly top) (hname : name ∈ names top) : '.' ∉ name.toList := by
  obtain ⟨⟨_, definition⟩, hmem, rfl⟩ := mem_map.mp hname
  exact h.dotFree _ (mem_fieldPaths_singleton hmem) _ mem_cons_self

theorem getD_properties (h : Orderly top) (hmem : ("properties", definition) ∈ top) :
    Fields.getD top "properties" = definition := by
  have hlookup : Fields.get? top "properties" = some definition := Keyed.lookup_of_mem h.unique hmem
  rw [Fields.getD, hlookup, Option.getD_some]

theorem mem_itemProperties (h : Orderly top) {path : List String} {found : Json}
    (hmem : ("properties" :: path, found) ∈ fieldPaths top) (hpath : path ≠ []) :
    (path, found) ∈ fieldPaths (itemProperties top) := by
  obtain ⟨name, definition, hfield, ⟨hpath', -⟩ | ⟨rest, hpath', hrest⟩⟩ := mem_fieldPaths.mp hmem
  · cases hpath'
    exact absurd rfl hpath
  · cases hpath'
    rwa [itemProperties, h.getD_properties hfield]

theorem dotFree_properties (h : Orderly top) (hname : name ∈ Fields.names (itemProperties top)) :
    '.' ∉ name.toList := by
  obtain ⟨⟨name, definition⟩, hmem, rfl⟩ := mem_map.mp hname
  -- There are such fields only if there is a definition of `properties`.
  cases hget : Fields.get? top "properties" with
  | none =>
    rw [itemProperties, Fields.getD, hget] at hmem
    cases hmem
  | some properties =>
    have hbelow : ([name], definition) ∈ fieldPaths (children properties) := by
      rw [itemProperties, Fields.getD, hget] at hmem
      exact mem_fieldPaths_singleton hmem
    have hpath : (["properties", name], definition) ∈ fieldPaths top :=
      mem_fieldPaths.mpr ⟨_, properties, Keyed.mem_of_lookup hget, .inr ⟨_, rfl, hbelow⟩⟩
    exact h.dotFree _ hpath name (mem_cons_of_mem _ mem_cons_self)

end Orderly

end Mapping

namespace Queryables

open Mapping

theorem startsWith_properties_iff :
    full.startsWith "properties." = true ↔ ∃ rest, full = "properties." ++ rest := by
  rw [String.startsWith_string_iff]
  constructor
  · rintro ⟨rest, hrest⟩
    refine ⟨String.ofList rest, String.toList_inj.mp ?_⟩
    rw [← hrest]
    exact (String.toList_append.trans (congrArg _ String.toList_ofList)).symm
  · rintro ⟨rest, rfl⟩
    exact ⟨rest.toList, String.toList_append.symm⟩

theorem publicName_append (rest : String) : publicName ("properties." ++ rest) = rest := by
  have hchars : ("properties." ++ rest).toList = "properties.".toList ++ rest.toList :=
      String.toList_append
  rw [publicName, if_pos (startsWith_properties_iff.mpr ⟨rest, rfl⟩), hchars,
    drop_left' (by decide), String.ofList_toList]

theorem publicName_of_ne (h : ∀ rest, full ≠ "properties." ++ rest) : publicName full = full :=
  if_neg fun hstarts => (startsWith_properties_iff.mp hstarts).elim h

/-- A field below `properties` is published by the path from there, any other by its full name. -/
theorem publicName_dotted (h : '.' ∉ name.toList) (rest : List String) :
    publicName (dotted (name :: rest)) =
      if name = "properties" ∧ rest ≠ [] then dotted rest else dotted (name :: rest) := by
  split
  · rename_i hbelow
    rw [dotted_cons hbelow.2, hbelow.1]
    exact publicName_append _
  · rename_i hnot
    refine publicName_of_ne fun tail htail => ?_
    have hchars : (dotted (name :: rest)).toList = "properties".toList ++ '.' :: tail.toList := by
      rw [htail, String.toList_append]
      rfl
    by_cases hrest : rest = []
    · -- A name without points does not begin with a text that has one.
      rw [hrest, dotted_singleton] at hchars
      exact h (hchars ▸ mem_append_right _ mem_cons_self)
    · rw [toList_dotted_cons hrest] at hchars
      exact hnot ⟨String.toList_inj.mp (front_eq_of_notMem h (by decide) hchars), hrest⟩

theorem kindOf_of_isDefinition (h : isDefinition definition = true) :
    ∃ kind?, kindOf definition = .ok kind? ∧ kind?.isSome = isQueryable definition ∧
      ∀ kind ∈ kind?, kind.hashable.isOk = true := by
  obtain ⟨entries, rfl, hbelow, hkind⟩ := exists_of_isDefinition h
  have hkindOf : kindOf (.obj entries) =
      .ok (if (Fields.getD entries "type").truthy &&
          ((Fields.get? entries "enabled").getD (.bool true)).truthy then
        some (Fields.getD entries "type") else none) := by
    unfold kindOf
    simp only [Json.lookup, Json.lookupD, ok_bind]
    cases hget : Fields.get? entries "properties" with
    | none => simp [Fields.getD, hget, Json.truthy]
    | some fields =>
      obtain ⟨inner, rfl⟩ := hbelow fields hget
      simp [Fields.getD, hget, Json.entries]
  refine ⟨_, hkindOf, ?_, fun kind hmem => ?_⟩
  · rw [isQueryable]
    cases Fields.get? entries "enabled" with
    | none => cases (Fields.getD entries "type").truthy <;> rfl
    | some enabled =>
      cases (Fields.getD entries "type").truthy <;> cases henabled :
        enabled.truthy <;> simp [henabled]
  · split at hmem
    · cases hmem
      rw [hkind]
      rfl
    · cases hmem

theorem isDefinition_of_mem_allFields (h : Orderly top) (hfield : field ∈ allFields top) :
    isDefinition field.2 = true := by
  obtain ⟨path, hpath, -⟩ := mem_allFields.mp hfield
  exact h.definitions _ hpath

theorem mem_meetings {fields : List FieldDef} (h : ∀ field ∈ fields, isDefinition field.2 = true)
    {kind : Json} :
    (name, kind) ∈ meetings fields ↔
      ∃ field ∈ fields, kindOf field.2 = .ok (some kind) ∧ name = publicName field.1 := by
  induction fields with
  | nil => simp [meetings]
  | cons field rest ih =>
    obtain ⟨hdefinition, hrest⟩ := forall_mem_cons.mp h
    obtain ⟨kind?, hkind, -, hhash⟩ := kindOf_of_isDefinition hdefinition
    rw [meetings, hkind, exists_mem_cons_iff, hkind]
    cases kind? with
    | none => simp [ih hrest]
    | some other => simp [hhash other rfl, ih hrest, and_comm, eq_comm]

theorem exists_mem_meetings {fields : List FieldDef}
    (h : ∀ field ∈ fields, isDefinition field.2 = true) (name : String) :
    (∃ kind, (name, kind) ∈ meetings fields) ↔
      ∃ field ∈ fields, isQueryable field.2 = true ∧ name = publicName field.1 := by
  simp only [mem_meetings h]
  rw [exists_comm]
  refine exists_congr fun field => ?_
  rw [exists_and_left]
  refine and_congr_right fun hfield => ?_
  obtain ⟨kind?, hkind, hqueryable, -⟩ := kindOf_of_isDefinition (h field hfield)
  rw [exists_and_right, hkind, ← hqueryable, Option.isSome_iff_exists]
  simp

end Queryables

namespace Mapping

variable {top : Fields}

/-! ### The table of a filter -/

theorem get?_foldl_insert (names : List String) (f : String → Json) (known : Fields)
    (name : String) :
    get? (names.foldl (fun acc name => insert acc name (f name)) known) name =
      if name ∈ names then some (f name) else get? known name := by
  induction names generalizing known with
  | nil => simp
  | cons first rest ih =>
    rw [foldl_cons, ih, get?_insert]
    by_cases hrest : name ∈ rest
    · rw [if_pos hrest, if_pos (mem_cons_of_mem _ hrest)]
    · by_cases hfirst : name = first
      · rw [if_neg hrest, if_pos hfirst, if_pos (hfirst ▸ mem_cons_self), hfirst]
      · rw [if_neg hrest, if_neg hfirst, if_neg (by simp [hfirst, hrest])]

theorem mem_names_erase {erased : String} :
    name ∈ names (erase fields erased) ↔ name ∈ names fields ∧ name ≠ erased := by
  simp only [names, erase, Keyed.erase, mem_map, mem_filter, decide_eq_true_eq]
  grind

theorem namesOf_properties (h : Orderly top) :
    ((Fields.get? top "properties").getD (.obj [])).lookupD "properties" (.obj []) >>= namesOf =
      .ok (Fields.names (itemProperties top)) := by
  unfold itemProperties Fields.getD
  cases hget : Fields.get? top "properties" with
  | none => rfl
  | some definition =>
    have hdefinition : isDefinition definition = true :=
      h.definitions _ (mem_fieldPaths_singleton (Keyed.mem_of_lookup hget))
    obtain ⟨entries, rfl, hfields, -⟩ := exists_of_isDefinition hdefinition
    rw [Option.getD_some, Option.getD_some, Json.lookupD, children, ok_bind]
    cases hbelow : Fields.get? entries "properties" with
    | none => rfl
    | some fields =>
      obtain ⟨inner, rfl⟩ := hfields _ hbelow
      rfl

/-- What a table says of the fields of a mapping: it has two levels of them, and the lower one wins.
-/
def IsTable (top table : Fields) : Prop :=
  ∀ name, get? table name =
    if name ∈ names (itemProperties top) then some (.str ("properties." ++ name))
    else if name ∈ names top ∧ name ≠ "properties" then some (.str name) else none

/-- The table by which filters are translated. -/
theorem exists_queryables (index : String) {mapping inner : Json}
    (hinner : mapping.item "mappings" = .ok inner) (htop : inner.item "properties" = .ok (.obj top))
    (h : Orderly top) :
    ∃ table left, queryables (.obj [(index, mapping)]) = .ok (table, left) ∧ IsTable top table := by
  have hfields := Json.lookupD_of_item htop (.obj [])
  obtain ⟨below, hbelow, hnames⟩ := bind_eq_ok.mp (namesOf_properties h)
  cases mapping with
  | obj entries =>
    set rest := erase top "properties" with hrest
    -- The fields at the top are entered first, and then those below `properties`.
    set upper := (names rest).foldl (fun acc name => insert acc name (.str name)) [] with hupper
    set table := (names (itemProperties top)).foldl
      (fun acc name => insert acc name (.str ("properties." ++ name))) upper with htable
    have hindex : ∃ left, indexQueryables [] (.obj entries) = .ok (table, left) := by
      have htop : (Json.obj rest).elements = .ok ((names rest).map Json.str) := by
        rw [Json.elements, names, map_map]
        rfl
      unfold indexQueryables
      simp only [hinner, ok_bind, hfields, takeProperties, hbelow, hnames, ← hrest, htop, foldl_map,
        Json.display, ← hupper, ← htable, Json.setItem]
      exact ⟨_, rfl⟩
    obtain ⟨left, hindex⟩ := hindex
    refine ⟨table, .obj [(index, left)], ?_, fun name => ?_⟩
    · simp only [queryables, allQueryables, hindex, ok_bind, pure_eq_ok]
    · rw [htable, get?_foldl_insert, hupper, get?_foldl_insert, hrest]
      simp only [mem_names_erase]
      rfl
  | _ => cases hinner

end Mapping

namespace Queryables

open Mapping

/-! ### Names there and back -/

section Names

variable {top table : Fields} {path : List String} {found : Json}

theorem head_mem_names (h : (name :: path, found) ∈ fieldPaths fields) :
    name ∈ Fields.names fields := by
  rcases mem_fieldPaths.mp h with ⟨name', definition, hmem, ⟨hpath, -⟩ | ⟨rest, hpath, -⟩⟩ <;>
    cases hpath <;>
    exact mem_map_of_mem hmem

theorem point_mem_dotted (name second : String) (rest : List String) :
    '.' ∈ (dotted (name :: second :: rest)).toList := by
  rw [toList_dotted_cons (cons_ne_nil _ _)]
  exact mem_append_right _ mem_cons_self

theorem field_of_point (h : Orderly top) (htable : IsTable top table) (hpoint : '.' ∈ name.toList) :
    Filter.field table (.str name) = .str name := by
  have hbelow : name ∉ Fields.names (itemProperties top) :=
      fun hname => h.dotFree_properties hname hpoint
  have htop : name ∉ Fields.names top := fun hname => h.dotFree_top hname hpoint
  rw [Filter.field, htable, if_neg hbelow, if_neg fun hboth => htop hboth.1]
  rfl

/-- No field has the name by which one deeper below `properties` is published. -/
theorem dotted_ne_of_deep (h : Orderly top) {second : String} {rest : List String}
    (hpath : ("properties" :: name :: second :: rest, found) ∈ fieldPaths top) :
    ∀ other ∈ fieldPaths top, dotted other.1 ≠ dotted (name :: second :: rest) := by
  rintro ⟨other, definition⟩ hother hsame
  have hname : name ∈ Fields.names (itemProperties top) :=
    head_mem_names (h.mem_itemProperties hpath (cons_ne_nil _ _))
  cases other with
  | nil => exact ne_nil_of_mem_fieldPaths hother rfl
  | cons first others =>
    have hfirst := h.dotFree _ hother first mem_cons_self
    dsimp only at hsame
    have hpoint := point_mem_dotted name second rest
    rw [← hsame] at hpoint
    cases others with
    | nil =>
      rw [dotted_singleton] at hpoint
      exact hfirst hpoint
    | cons next others =>
      -- Both names begin with a name up to the first point, so they begin at one place.
      have hchars := congrArg String.toList hsame
      rw [toList_dotted_cons (cons_ne_nil _ _), toList_dotted_cons (cons_ne_nil _ _)] at hchars
      have heq := front_eq_of_notMem hfirst (h.dotFree_properties hname) hchars
      exact h.apart name hname (String.toList_inj.mp heq.symm ▸ head_mem_names hother)

/-- Published names are translated back, but for those from deeper below `properties`. -/
theorem field_publicName (h : Orderly top) (htable : IsTable top table)
    (hpath : (path, found) ∈ fieldPaths top) :
    (Filter.field table (.str (publicName (dotted path))) = .str (dotted path) ↔
      ¬ (path.head? = some "properties" ∧ 3 ≤ path.length)) ∧
    (path.head? = some "properties" → 3 ≤ path.length →
      Filter.field table (.str (publicName (dotted path))) = .str (publicName (dotted path)) ∧
      ∀ other ∈ fieldPaths top, dotted other.1 ≠ publicName (dotted path)) := by
  cases path with
  | nil => exact absurd rfl (ne_nil_of_mem_fieldPaths hpath)
  | cons name rest =>
    have htop := head_mem_names hpath
    rw [publicName_dotted (h.dotFree_top htop)]
    cases rest with
    | nil =>
      -- At the top: a field is in the table under its own name, `properties` is not in it.
      have hbelow : name ∉ Fields.names (itemProperties top) := fun hname => h.apart name hname htop
      rw [if_neg fun hboth => hboth.2 rfl, dotted_singleton, Filter.field, htable, if_neg hbelow]
      refine ⟨⟨fun _ hdeep => by simp at hdeep, fun _ => ?_⟩, fun _ hlength => by simp at hlength⟩
      split <;> rfl
    | cons second rest =>
      by_cases hname : name = "properties"
      · rw [if_pos ⟨hname, cons_ne_nil _ _⟩]
        subst hname
        cases rest with
        | nil =>
          -- Right below `properties`.
          have hsecond : second ∈ Fields.names (itemProperties top) :=
            head_mem_names (h.mem_itemProperties hpath (cons_ne_nil _ _))
          refine ⟨⟨fun _ hdeep => by simp at hdeep, fun _ => ?_⟩,
            fun _ hlength => by simp at hlength⟩
          rw [dotted_cons (cons_ne_nil _ _), dotted_singleton, Filter.field, htable, if_pos hsecond]
          rfl
        | cons third rest =>
          have hfield := field_of_point h htable (point_mem_dotted second third rest)
          refine ⟨⟨fun hsame => ?_, fun hshallow => absurd ⟨rfl, by simp⟩ hshallow⟩, fun _ _ =>
            ⟨hfield, dotted_ne_of_deep h hpath⟩⟩
          exact absurd (Json.str.inj (hsame.symm.trans hfield)) (dotted_ne_of_deep h hpath _ hpath)
      · rw [if_neg fun hboth => hname hboth.1]
        have hfield := field_of_point h htable (point_mem_dotted name second rest)
        have hhead : (name :: second :: rest).head? ≠ some "properties" := by simpa using hname
        exact ⟨⟨fun _ hdeep => hhead hdeep.1, fun _ => hfield⟩, fun hproperties =>
          absurd hproperties hhead⟩

end Names

/-! ### Answers -/

theorem exists_meetAll (q : Queryables) {fields : List FieldDef}
    (h : ∀ field ∈ fields, isDefinition field.2 = true) :
    ∃ listed, (q.meetAll fields).1 = .ok listed := by
  induction fields generalizing q with
  | nil => exact ⟨[], rfl⟩
  | cons field rest ih =>
    obtain ⟨full, definition⟩ := field
    obtain ⟨hdefinition, hrest⟩ := forall_mem_cons.mp h
    obtain ⟨kind?, hkind, -, hhash⟩ := kindOf_of_isDefinition hdefinition
    rw [meetAll, hkind]
    cases kind? with
    | none => exact ih q hrest
    | some kind =>
      obtain ⟨u, hkey⟩ := exists_of_isOk (hhash kind rfl)
      obtain ⟨listed, hlisted⟩ :=
          ih (q.publish (publicName full) (q.filledIn (publicName full) kind)) hrest
      simp only [meet_eq, hkey, Except.map, hlisted]
      exact ⟨_, rfl⟩

theorem listValues_eq_ok (q : Queryables) {listed : List String} {values : Fields}
    (h : ∀ entry ∈ values, entry.1 ∈ listed) : (q.listValues listed values).1 = .ok () := by
  induction values generalizing q with
  | nil => rfl
  | cons entry rest ih =>
    obtain ⟨field, given⟩ := entry
    obtain ⟨hfield, hrest⟩ := forall_mem_cons.mp h
    rw [listValues, if_pos (contains_iff_mem.mpr hfield)]
    exact ih _ hrest

theorem exists_respond_of_definitions (q : Queryables) (htop : content.top = .ok top)
    (hdefinitions : ∀ field ∈ allFields top, isDefinition field.2 = true)
    (hvalues : ∀ listed, ∃ values, content.values listed = .ok values ∧
      ∀ entry ∈ values, entry.1 ∈ listed) : ∃ a, (q.respond content).1 = .ok a := by
  obtain ⟨listed, hlisted⟩ := exists_meetAll q hdefinitions
  unfold respond
  rw [htop]
  dsimp only
  generalize q.meetAll (allFields top) = walk at hlisted
  obtain ⟨outcome, r⟩ := walk
  cases hlisted
  cases listed with
  | nil => exact ⟨_, rfl⟩
  | cons field others =>
    obtain ⟨values, hread, hentries⟩ := hvalues (field :: others)
    dsimp only
    rw [hread]
    dsimp only
    have hok := listValues_eq_ok r hentries
    generalize r.listValues (field :: others) values = listing at hok
    obtain ⟨outcome, t⟩ := listing
    cases hok
    exact ⟨_, rfl⟩

section Answers

open Program

variable {σ : Type} {ctx : Context} {answer : Answering σ} {s : σ} {collection : Json}
    {index : String}
  {mapping inner : Json} {top : Fields}

/-- The mapping that counts is that of the first index. -/
theorem contentOf_top {others : Fields}
    (hread : ((Items.mapping ctx collection).run answer s).1 =
      .ok (.obj ((index, mapping) :: others)))
    (hinner : mapping.item "mappings" = .ok inner)
    (htop : inner.item "properties" = .ok (.obj top)) :
    (contentOf ctx answer s collection).top = .ok top := by
  have hfields : topFields (.obj ((index, mapping) :: others)) = .ok top := by
    rw [topFields, hinner, ok_bind, htop]
    rfl
  show ((Items.mapping ctx collection >>= fun mappings => liftM (topFields mappings) : Program
    Fields).run answer s).1 = _
  cases hrun : (Items.mapping ctx collection).run answer s with
  | mk outcome t =>
    rw [hrun] at hread
    cases hread
    rw [run_bind_ok hrun, run_liftM, hfields]

/-- **Published names.** Of a mapping of one index, in a fresh process: an answer describes the
standard fields and, under the names that leave `properties.` out, all fields that have a type and
are not disabled; and there is an answer if the database gives the values it is asked for. A filter
that uses such a name is about that field, unless the field is deeper below `properties`. Then the
name is left as it is, and no field of the mapping has it. -/
theorem field_publicName_iff (hsteady : ∀ s, Steady answer s)
    (hcollection : collection.truthy = true)
    (hread : ((Items.mapping ctx collection).run answer s).1 = .ok (.obj [(index, mapping)]))
    (hinner : mapping.item "mappings" = .ok inner) (htop : inner.item "properties" = .ok (.obj top))
    (h : Orderly top) :
    (∀ a, (call ctx answer initial s collection).1 = .ok a →
      ∀ name, name ∈ describedIn a ↔
        name ∈ standard.map Prod.fst ∨
        ∃ field ∈ fieldPaths top, isQueryable field.2 = true ∧ name = publicName (dotted field.1)) ∧
    ((∀ listed, ∃ values, (contentOf ctx answer s collection).values listed = .ok values ∧
          ∀ entry ∈ values, entry.1 ∈ listed) →
      ∃ a, (call ctx answer initial s collection).1 = .ok a) ∧
    ∃ table left, Mapping.queryables (.obj [(index, mapping)]) = .ok (table, left) ∧
      ∀ path definition, (path, definition) ∈ fieldPaths top →
        (Filter.field table (.str (publicName (dotted path))) = .str (dotted path) ↔
          ¬ (path.head? = some "properties" ∧ 3 ≤ path.length)) ∧
        (path.head? = some "properties" → 3 ≤ path.length →
          Filter.field table (.str (publicName (dotted path))) = .str (publicName (dotted path)) ∧
          ∀ other ∈ fieldPaths top, dotted other.1 ≠ publicName (dotted path)) := by
  have hcontent := contentOf_top hread hinner htop
  refine ⟨fun a ha name => ?_, fun hvalues => ?_, ?_⟩
  · obtain ⟨hleaves, hanswer⟩ := call_leaves hsteady initial (s, collection)
    obtain ⟨additional, rfl⟩ := hanswer a ha
    have hmet : metBy ctx answer (s, collection) = meetings (allFields top) := by
      rw [metBy, if_pos hcollection, Content.met, hcontent]
    have hinitial : initial.names = standard.map Prod.fst := List.map_map
    rw [describedIn_toJson, hleaves.names, hmet, exists_mem_meetings fun field =>
      isDefinition_of_mem_allFields h, hinitial]
    refine or_congr_right ⟨?_, ?_⟩
    · rintro ⟨⟨full, definition⟩, hfield, hqueryable, rfl⟩
      obtain ⟨path, hpath, rfl⟩ := mem_allFields.mp hfield
      exact ⟨(path, definition), hpath, hqueryable, rfl⟩
    · rintro ⟨⟨path, definition⟩, hpath, hqueryable, rfl⟩
      exact ⟨(dotted path, definition), mem_allFields.mpr ⟨path, hpath, rfl⟩, hqueryable, rfl⟩
  · rw [call_eq hsteady, if_pos hcollection]
    exact exists_respond_of_definitions initial hcontent
      (fun _ => isDefinition_of_mem_allFields h) hvalues
  · obtain ⟨table, left, hqueryables, htable⟩ := exists_queryables index hinner htop h
    exact ⟨table, left, hqueryables, fun path definition hpath => field_publicName h htable hpath⟩

/-- The fields of items that have a property, and a property with another one below it. -/
def nestedFields : Fields :=
  [("id", .single "type" (.str "keyword")), ("properties", .single "properties" (.obj [
      ("grade", .single "type" (.str "integer")),
      ("view", .single "properties" (.single "angle" (.single "type" (.str "float"))))]))]

def nestedMappings : Json :=
  .single "items_c" (.single "mappings" (.single "properties" (.obj nestedFields)))

/-- The property is found by its published name; the one below the other property is published, but
not found. -/
theorem field_publicName_iff_nested :
    ∃ a table left, (call default answerMapping initial nestedMappings (.str "c")).1 = .ok a ∧
      Mapping.queryables nestedMappings = .ok (table, left) ∧
      "grade" ∈ describedIn a ∧ Filter.field table (.str "grade") = .str "properties.grade" ∧
      "view.angle" ∈ describedIn a ∧ Filter.field table (.str "view.angle") = .str "view.angle" ∧
      ∀ other ∈ fieldPaths nestedFields, dotted other.1 ≠ "view.angle" := by
  have hsteady : ∀ s, Steady answerMapping s := fun s => ⟨fun _ _ => rfl, fun _ _ _ => rfl⟩
  have horderly : Orderly nestedFields := {
    unique := by decide
    definitions := by decide
    dotFree := by decide
    apart := by decide }
  have hread : ((Items.mapping default (.str "c")).run answerMapping nestedMappings).1 =
      .ok (.obj [("items_c", .single "mappings" (.single "properties" (.obj nestedFields)))]) := by
    decide
  obtain ⟨a, ha⟩ := exists_of_isOk
    (show (call default answerMapping initial nestedMappings (.str "c")).1.isOk = true
      by decide +kernel)
  obtain ⟨hdescribed, -, table, left, hqueryables, hfield⟩ :=
    field_publicName_iff hsteady (by decide) hread (by rfl) (by rfl) horderly
  have hgrade : (["properties", "grade"], Json.single "type" (.str "integer")) ∈
      fieldPaths nestedFields := by
    decide
  have hangle : (["properties", "view", "angle"], Json.single "type" (.str "float")) ∈
      fieldPaths nestedFields := by
    decide
  have hgradeName : publicName (dotted ["properties", "grade"]) = "grade" := by decide +kernel
  have hangleName : publicName (dotted ["properties", "view", "angle"]) =
      "view.angle" := by decide +kernel
  have hgradeFull : dotted ["properties", "grade"] = "properties.grade" := by decide
  obtain ⟨hleft, hnone⟩ := (hfield _ _ hangle).2 rfl (by decide)
  have hfound := (hfield _ _ hgrade).1.mpr (by decide)
  rw [hgradeName, hgradeFull] at hfound
  rw [hangleName] at hleft hnone
  exact ⟨a, table, left, ha, hqueryables,
    (hdescribed a ha _).mpr (Or.inr ⟨_, hgrade, rfl, hgradeName.symm⟩), hfound,
    (hdescribed a ha _).mpr (Or.inr ⟨_, hangle, rfl, hangleName.symm⟩), hleft, hnone⟩

end Answers

end Queryables

end StacCatalog
