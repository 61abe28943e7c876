import StacCatalog.Proofs.Queryables.Translation

/-!
# The queryables of a collection in a fresh process
-/

namespace StacCatalog

open List Fields

variable {queue : List Queryables.FieldDef}

namespace Queryables

open Mapping

/-! ### The work list -/

def fieldsBelow (field : FieldDef) : List FieldDef :=
  (children field.2).map fun entry => (fullName (some field.1) entry.1, entry.2)

/-- The walk along a list of fields to be visited, with the fields it visits, in order. -/
inductive Walks : List FieldDef → List FieldDef → Prop where
  /-- Nothing is left. -/
  | done : Walks [] []
  /-- The first field is visited, and the fields right below it are to be visited after all others.
  -/
  | visit {field : FieldDef} {queue visited : List FieldDef} :
      Walks (queue ++ fieldsBelow field) visited → Walks (field :: queue) (field :: visited)

theorem Walks.unique {visited others : List FieldDef} (h : Walks queue visited)
    (h' : Walks queue others) : others = visited := by
  induction h generalizing others with
  | done =>
    cases h'
    rfl
  | visit _ ih =>
    cases h' with
    | visit hrest => rw [ih hrest]

/-- What stands at the front of the list is visited first, and then what is below it, behind the
others. -/
theorem Walks.front {front visited : List FieldDef}
    (h : Walks (queue ++ front.flatMap fieldsBelow) visited) :
    Walks (front ++ queue) (front ++ visited) := by
  induction front generalizing queue with
  | nil => simpa using h
  | cons field rest ih =>
    rw [flatMap_cons, ← append_assoc] at h
    have hrest := ih h
    rw [← append_assoc] at hrest
    exact .visit hrest

/-- The levels of fields to be visited and of all that is below them. -/
def levels (queue : List FieldDef) : List (List FieldDef) :=
  queue.foldr (fun field rest => joinLevels ([field] :: levelsBelow field.1 field.2) rest) []

theorem joinLevels_nil (a : List (List FieldDef)) : joinLevels a [] = a := by
  cases a <;> rfl

theorem joinLevels_assoc (a b c : List (List FieldDef)) :
    joinLevels (joinLevels a b) c = joinLevels a (joinLevels b c) := by
  induction a generalizing b c with
  | nil => rfl
  | cons x xs ih =>
    cases b with
    | nil => rfl
    | cons y ys =>
      cases c with
      | nil => rfl
      | cons z zs => simp only [joinLevels, ih, append_assoc]

theorem levels_append (front queue : List FieldDef) :
    levels (front ++ queue) = joinLevels (levels front) (levels queue) := by
  induction front with
  | nil => rfl
  | cons field rest ih =>
    show joinLevels _ (levels (rest ++ queue)) = joinLevels (joinLevels _ (levels rest))
      (levels queue)
    rw [ih, joinLevels_assoc]

theorem fieldLevels_eq (parent : Option String) (fields : Fields) :
    fieldLevels parent fields =
      levels (fields.map fun entry => (fullName parent entry.1, entry.2)) := by
  induction fields with
  | nil => rfl
  | cons entry rest ih =>
    rw [fieldLevels, ih]
    rfl

theorem levelsBelow_eq (field : FieldDef) :
    levelsBelow field.1 field.2 = levels (fieldsBelow field) := by
  obtain ⟨name, definition⟩ := field
  cases definition with
  | obj entries =>
    rw [levelsBelow, fieldsBelow]
    induction entries with
    | nil => rfl
    | cons entry rest ih =>
      rw [levelsInside, children_cons]
      split
      · cases entry.2 with
        | obj fields => exact fieldLevels_eq (some name) fields
        | _ => rfl
      · exact ih
  | _ => rfl

/-- The first level is what is to be visited, and the others are those of what is right below it. -/
theorem levels_eq (h : queue ≠ []) :
    levels queue = queue :: levels (queue.flatMap fieldsBelow) := by
  induction queue with
  | nil => exact absurd rfl h
  | cons field rest ih =>
    show joinLevels ([field] :: levelsBelow field.1 field.2) (levels rest) = _
    rw [levelsBelow_eq, flatMap_cons, levels_append]
    cases rest with
    | nil => exact congrArg ([field] :: ·) (joinLevels_nil _).symm
    | cons next others =>
      rw [ih (cons_ne_nil _ _)]
      rfl

/-- **The walk ends**, and visits level after level. -/
theorem walks_levels (queue : List FieldDef) : Walks queue (levels queue).flatten := by
  -- every level that is visited is one less to come
  induction hn : (levels queue).length generalizing queue with
  | zero =>
    cases queue with
    | nil => exact .done
    | cons field rest =>
      rw [levels_eq (cons_ne_nil _ _)] at hn
      cases hn
  | succ n ih =>
    have hne : queue ≠ [] := by
      rintro rfl
      cases hn
    rw [levels_eq hne, length_cons, Nat.succ.injEq] at hn
    have hwalk : Walks (queue ++ []) (queue ++ (levels (queue.flatMap fieldsBelow)).flatten) :=
      Walks.front (ih _ hn)
    rwa [append_nil, ← flatten_cons, ← levels_eq hne] at hwalk

theorem walks_allFields (top : Fields) (visited : List FieldDef) :
    Walks top visited ↔ visited = allFields top := by
  have htop : allFields top = (levels top).flatten := by
    rw [allFields, fieldLevels_eq]
    exact congrArg (fun queue => (levels queue).flatten) (map_id top)
  rw [htop]
  exact ⟨(walks_levels top).unique, fun h => h ▸ walks_levels top⟩

/-! ### Descriptions -/

/-- The queryables of a process that has met nothing but fields of readable kinds. -/
structure Fresh (q : Queryables) : Prop where
  /-- What has a description of its own is described in full. -/
  own : ∀ entry ∈ q.published, ∀ own ∈ entry.2,
    has own "title" = true ∧ has own "type" = true ∧ has own "$enum" = false
  /-- All else that is published is described beforehand. -/
  shared : ∀ entry ∈ q.published, entry.2 = none → (q.known.lookup entry.1).isSome = true
  unmarked : ∀ name ∈ q.names, has (q.describe name) "$enum" = false

theorem fresh_initial : Fresh initial := by
  have hnames : initial.names = standard.map Prod.fst := map_map
  have hnone : ∀ entry ∈ initial.published, entry.2 = none := by
    intro entry hentry
    obtain ⟨_, -, rfl⟩ := mem_map.mp hentry
    rfl
  refine ⟨fun entry hentry own hown => ?_, fun entry hentry _ => ?_, fun name hname => ?_⟩
  · rw [hnone entry hentry] at hown
    cases hown
  · obtain ⟨description, hlookup⟩ :=
      Keyed.exists_lookup (hnames ▸ mem_map_of_mem hentry : entry.1 ∈ standard.map Prod.fst)
    rw [lookup_known_initial hlookup]
    rfl
  · obtain ⟨description, hlookup⟩ := Keyed.exists_lookup (hnames ▸ hname)
    rw [describe, lookup_known_initial hlookup]
    exact has_enum_standard _ (Keyed.mem_of_lookup hlookup)

namespace Fresh

variable {q : Queryables}

/-- A field may be published under a description without the mark; one of its own is to be in full.
-/
theorem publish (h : Fresh q) {name : String} {description : Fields}
    (hunmarked : has description "$enum" = false)
    (hown : (q.known.lookup name).isSome = false →
      has description "title" = true ∧ has description "type" = true) :
    Fresh (q.publish name description) := by
  have hentries : ∀ entry ∈ (q.publish name description).published,
      entry = (name, if (q.known.lookup name).isSome then none else some description) ∨
      entry ∈ q.published := by
    intro entry hentry
    rw [Queryables.publish] at hentry
    split_ifs at hentry ⊢ <;> exact Keyed.mem_of_mem_set hentry
  -- A field that is known already is published by what is known, any other by its own.
  refine ⟨fun entry hentry own hmem => ?_, fun entry hentry hnone => ?_, fun other hother => ?_⟩
  · rcases hentries entry hentry with rfl | hold
    · dsimp only at hmem
      split at hmem
      · cases hmem
      · rename_i hunknown
        cases hmem
        obtain ⟨htitle, htype⟩ := hown (Bool.eq_false_iff.mpr hunknown)
        exact ⟨htitle, htype, hunmarked⟩
    · exact h.own entry hold own hmem
  · rw [lookup_known_publish]
    split
    · rfl
    · rcases hentries entry hentry with rfl | hold
      · dsimp only at hnone
        split at hnone
        · assumption
        · cases hnone
      · exact h.shared entry hold hnone
  · rw [describe, lookup_known_publish]
    split
    · exact hunmarked
    · rename_i hnot
      rcases mem_names_publish.mp hother with rfl | hold
      · have hunknown : q.known.lookup other = none := Option.not_isSome_iff_eq_none.mp fun hsome =>
          hnot ⟨rfl, hsome⟩
        rw [hunknown]
        rfl
      · exact h.unmarked other hold

theorem meeting (h : Fresh q) (name : String) {kind : Json} (hkind : kind.hashable.isOk = true) :
    Fresh (q.publish name (q.filledIn name kind)) := by
  have hdetails {detail : String} (hmem : detail ∈ detailsOf kind) :
      has (q.filledIn name kind) detail = true :=
    (has_filledIn q name kind (ne_of_mem_detailsOf hmem)).mpr (.inl hmem)
  rw [detailsOf, if_pos hkind] at hdetails
  refine h.publish ?_ fun _ => ⟨hdetails (by simp), hdetails (by simp)⟩
  rw [filledIn, filled, if_pos hkind, has_eq_false_iff, get?_erase, if_pos rfl]

theorem metAll (h : Fresh q) {met : List (String × Json)}
    (hkinds : ∀ m ∈ met, m.2.hashable.isOk = true) : Fresh (q.metAll met) := by
  induction met generalizing q with
  | nil => exact h
  | cons m rest ih =>
    obtain ⟨hkind, hrest⟩ := forall_mem_cons.mp hkinds
    exact ih (h.meeting m.1 hkind) hrest

theorem listValues (h : Fresh q) {listed : List String}
    (hpublished : ∀ field ∈ listed, publicName field ∈ q.names)
    (hknown : ∀ field ∈ listed, (q.known.lookup (publicName field)).isSome = true)
    (values : List (String × Json)) : Fresh (q.listValues listed values).2 := by
  induction values generalizing q with
  | nil => exact h
  | cons entry rest ih =>
    obtain ⟨field, given⟩ := entry
    rw [Queryables.listValues]
    split
    · rename_i hlisted
      have hmem : field ∈ listed := contains_iff_mem.mp hlisted
      have hgrows := (Leaves.enum (hpublished field hmem) given).grows
      refine ih (h.publish ?_ fun hunknown => ?_)
        (fun other hother => hgrows.names _ (hpublished other hother))
        fun other hother => (hgrows.known _).trans (hknown other hother)
      · rw [has_eq_false_iff, get?_insert, if_neg (by decide), ← has_eq_false_iff]
        exact h.unmarked _ (hpublished field hmem)
      · rw [hknown field hmem] at hunknown
        cases hunknown
    · exact h

end Fresh

theorem hashable_of_mem_meetings {fields : List FieldDef}
    (h : ∀ field ∈ fields, isDefinition field.2 = true) :
    ∀ m ∈ meetings fields, m.2.hashable.isOk = true := by
  rintro ⟨name, kind⟩ hm
  obtain ⟨field, hfield, hkind, -⟩ := (mem_meetings h).mp hm
  obtain ⟨kind?, hkind', -, hhash⟩ := kindOf_of_isDefinition (h field hfield)
  exact hhash kind (Except.ok.inj (hkind'.symm.trans hkind))

/-- A call that meets nothing but definitions keeps the queryables described in full. -/
theorem Fresh.respond {q : Queryables} (h : Fresh q) {content : Content} {top : Fields}
    (htop : content.top = .ok top)
    (hdefinitions : ∀ field ∈ allFields top, isDefinition field.2 = true) :
    Fresh (q.respond content).2 := by
  have hmet := h.metAll (hashable_of_mem_meetings hdefinitions)
  obtain ⟨hstate | ⟨field, others, values, hlisted, hstate⟩, -⟩ := q.respond_cases htop
  · exact hstate ▸ hmet
  · have hleaves := Leaves.metAll q (meetings (allFields top))
    refine hstate ▸ hmet.listValues (fun other hother => ?_) (fun other hother => ?_) values
    · exact (hleaves.names _).mpr (.inr (meetAll_fst hlisted other hother).1)
    · exact (hleaves.grows.known _).trans (meetAll_fst hlisted other hother).2

/-! ### Answers -/

/-- A name without `properties.` at its front. -/
def Unprefixed (full name : String) : Prop :=
  full = "properties." ++ name ∨ (name = full ∧ ∀ rest, full ≠ "properties." ++ rest)

theorem eq_publicName_iff {full name : String} : name = publicName full ↔ Unprefixed full name := by
  by_cases hstarts : ∃ rest, full = "properties." ++ rest
  · obtain ⟨rest, rfl⟩ := hstarts
    rw [publicName_append]
    constructor
    · rintro rfl
      exact .inl rfl
    · rintro (hname | ⟨-, hnone⟩)
      · exact (String.append_right_inj _).mp hname.symm
      · exact absurd rfl (hnone rest)
  · have hnone := not_exists.mp hstarts
    rw [publicName_of_ne hnone]
    exact ⟨fun hname => .inr ⟨hname, hnone⟩, fun h => (h.resolve_left (hnone name)).1⟩

instance (full name : String) : Decidable (Unprefixed full name) :=
  decidable_of_iff _ eq_publicName_iff

/-- The names by which a mapping makes fields queryable: those of the fields, at any depth, that
have a type and are not disabled. -/
def Finds (top : Fields) (name : String) : Prop :=
  ∃ field ∈ fieldPaths top, isQueryable field.2 = true ∧ Unprefixed (dotted field.1) name

instance (top : Fields) (name : String) : Decidable (Finds top name) :=
  inferInstanceAs (Decidable (∃ field ∈ fieldPaths top, _))

theorem exists_mem_meetings_iff {top : Fields}
    (h : ∀ field ∈ allFields top, isDefinition field.2 = true) (name : String) :
    (∃ kind, (name, kind) ∈ meetings (allFields top)) ↔ Finds top name := by
  rw [exists_mem_meetings h]
  constructor
  · rintro ⟨⟨full, definition⟩, hfield, hqueryable, hname⟩
    obtain ⟨path, hpath, rfl⟩ := mem_allFields.mp hfield
    exact ⟨(path, definition), hpath, hqueryable, eq_publicName_iff.mp hname⟩
  · rintro ⟨⟨path, definition⟩, hpath, hqueryable, hname⟩
    exact ⟨(dotted path, definition), mem_allFields.mpr ⟨path, hpath, rfl⟩, hqueryable,
      eq_publicName_iff.mpr hname⟩

/-- What is published is described without the mark, and in full if it was met. -/
theorem Fresh.described {q : Queryables} (h : Fresh q) {entry : String × Json}
    (hentry : entry ∈ q.properties) :
    ∃ description, entry.2 = .obj description ∧ has description "$enum" = false ∧
      ∀ kind, q.Met entry.1 kind → kind.hashable.isOk = true →
        has description "title" = true ∧ has description "type" = true := by
  obtain ⟨⟨name, own?⟩, hpublished, rfl⟩ := mem_map.mp hentry
  cases own? with
  | some own =>
    obtain ⟨htitle, htype, hunmarked⟩ := h.own _ hpublished own rfl
    exact ⟨own, rfl, hunmarked, fun _ _ _ => ⟨htitle, htype⟩⟩
  | none =>
    refine ⟨q.describe name, rfl, h.unmarked name (mem_map_of_mem hpublished),
      fun kind hmet hkind => ?_⟩
    have hdetails := hmet.details (h.shared _ hpublished rfl)
    rw [detailsOf, if_pos hkind] at hdetails
    exact ⟨hdetails _ (by simp), hdetails _ (by simp)⟩

section Databases

open Program

variable {σ : Type} {ctx : Context} {answer : Answering σ} {s : σ} {id : String}

/-- What is reported of fields that are asked about: for some of them, buckets with a key each. -/
def ReportsValues (fields : List Json) (v : Json) : Prop :=
  ∃ entries, v.item "aggregations" = .ok (.obj entries) ∧ ∀ entry ∈ entries, .str entry.1 ∈ fields ∧
    ∃ buckets, entry.2.item "buckets" = .ok (.arr buckets) ∧ ∀ bucket ∈ buckets, ∃ key,
      bucket.item "key" = .ok key

/-- A database that tells the mappings of the items of a collection, and the values of fields. -/
structure Tells (ctx : Context) (answer : Answering σ) (s : σ) (id : String)
    (mappings : Json) : Prop
    extends Steady answer s where
  reads : (answer s (.getMapping (ctx.naming.aliasOf id) true)).1 = .value mappings
  reports : ∀ fields size, ∃ v, (answer s (.uniqueValues (ctx.naming.aliasOf id) fields size)).1 =
    .value v ∧ ReportsValues fields v

theorem exists_valuesOf {aggregation : Json} {buckets : List Json}
    (hbuckets : aggregation.item "buckets" = .ok (.arr buckets))
    (hkeys : ∀ bucket ∈ buckets, ∃ key, bucket.item "key" = .ok key) (limit : Int) :
    ∃ values, Items.valuesOf (.int limit) aggregation = .ok values := by
  obtain ⟨keys, hmap⟩ := Outcome.exists_mapM hkeys
  have helements : (Json.arr buckets).elements = .ok buckets := rfl
  simp only [Items.valuesOf, hbuckets, Outcome.ok_bind, Json.size, Json.greater_int,
    helements, hmap]
  split <;> exact ⟨_, rfl⟩

theorem exists_collectValues {entries : Fields} (limit : Int)
    (h : ∀ entry ∈ entries, ∃ values, Items.valuesOf (.int limit) entry.2 = .ok values) :
    ∃ values, Items.collectValues (.int limit) entries = .ok values ∧
      ∀ kept ∈ values, kept.1 ∈ Fields.names entries := by
  induction entries with
  | nil => exact ⟨[], rfl, nofun⟩
  | cons entry rest ih =>
    obtain ⟨field, aggregation⟩ := entry
    obtain ⟨⟨values, hvalues⟩, hrest⟩ := forall_mem_cons.mp h
    obtain ⟨others, hothers, hmem⟩ := ih hrest
    refine ⟨(values.map fun v => (field, v)).toList ++ others, ?_, fun kept hkept => ?_⟩
    · rw [Items.collectValues, hvalues, Outcome.ok_bind, hothers]
      rfl
    · rcases mem_append.mp hkept with hkept | hkept
      · obtain ⟨v, -, rfl⟩ := Option.map_eq_some_iff.mp (Option.mem_toList.mp hkept)
        exact mem_cons_self
      · exact mem_cons_of_mem _ (hmem kept hkept)

theorem forM_hashable (names : List String) :
    ((names.map Json.str).forM fun name => (name.hashable : Outcome Unit) : Program Unit) =
      pure () := by
  induction names with
  | nil => rfl
  | cons name rest ih => exact ih

namespace Tells

variable {index : String} {mapping inner mappings : Json} {others top : Fields}

theorem contentOf_top (h : Tells ctx answer s id (.obj ((index, mapping) :: others)))
    (hinner : mapping.item "mappings" = .ok inner)
    (htop : inner.item "properties" = .ok (.obj top)) :
    (contentOf ctx answer s (.str id)).top = .ok top := by
  have hread : (Items.mapping ctx (.str id)).run answer s =
      (.ok (.obj ((index, mapping) :: others)), _) :=
    run_orMissing_eq_ok.mpr (run_perform_eq_ok.mpr ⟨h.reads, rfl⟩)
  exact Queryables.contentOf_top (congrArg Prod.fst hread) hinner htop

theorem contentOf_values (h : Tells ctx answer s id mappings) (listed : List String) :
    ∃ values, (contentOf ctx answer s (.str id)).values listed = .ok values ∧
      ∀ entry ∈ values, entry.1 ∈ listed := by
  obtain ⟨v, hreply, entries, haggregations, hentries⟩ := h.reports (listed.map .str) (.int 101)
  obtain ⟨values, hvalues, hkept⟩ := exists_collectValues 100 fun entry hentry =>
    exists_valuesOf (hentries entry hentry).2.choose_spec.1
      (hentries entry hentry).2.choose_spec.2 100
  have hperform : (perform (.uniqueValues (ctx.naming.aliasOf id) (listed.map .str) (.int 101))).run
      answer s = (.ok v, _) := run_perform_eq_ok.mpr ⟨hreply, rfl⟩
  refine ⟨values, ?_, fun entry hentry => ?_⟩
  · have hrun : (Items.uniqueValues ctx (.str id) (Json.ofStrings listed) (.int 100)).run answer s =
      ((do
          (listed.map Json.str).forM fun name => (name.hashable : Outcome Unit)
          let answer ← perform (.uniqueValues (ctx.naming.aliasOf id) (listed.map .str) (.int 101))
          Items.collectValues (.int 100) (← (← answer.item "aggregations").entries) :
            Program Fields)).run answer s :=
      rfl
    show ((Items.uniqueValues ctx (.str id) (Json.ofStrings listed) (.int 100)).run answer s).1 = _
    rw [hrun, forM_hashable, pure_bind, run_bind_ok hperform, haggregations]
    exact congrArg Prod.fst (run_liftM_eq_ok.mpr ⟨hvalues, rfl⟩)
  · obtain ⟨reported, hreported, hname⟩ := mem_map.mp (hkept entry hentry)
    have hasked := (hentries reported hreported).1
    rw [hname] at hasked
    simpa using hasked

end Tells

variable {index : String} {mapping inner : Json} {others top : Fields}

/-- **The queryables of a fresh process.** Whatever the depth of a mapping, the walk along its
fields ends, with all of them visited. The answer describes the standard fields and those that the
mapping makes queryable, under their full names without `properties.` at the front, and no others.
The latter all have a title and a type, and nothing is marked `$enum`. -/
theorem call_initial_fields (hid : id ≠ "")
    (h : Tells ctx answer s id (.obj ((index, mapping) :: others)))
    (hinner : mapping.item "mappings" = .ok inner) (htop : inner.item "properties" = .ok (.obj top))
    (hdefinitions : ∀ field ∈ fieldPaths top, isDefinition field.2 = true) :
    (∀ visited, Walks top visited ↔ visited = allFields top) ∧
    ∃ a described, (call ctx answer initial s (.str id)).1 = .ok a ∧
      a.lookup "properties" = .ok (.obj described) ∧
      (∀ name, name ∈ Fields.names described ↔ name ∈ standard.map Prod.fst ∨ Finds top name) ∧
      ∀ entry ∈ described, ∃ description, entry.2 = .obj description ∧
        Fields.has description "$enum" = false ∧
        (Finds top entry.1 →
          Fields.has description "title" = true ∧ Fields.has description "type" = true) := by
  have hfields : ∀ field ∈ allFields top, isDefinition field.2 = true := by
    intro field hfield
    obtain ⟨path, hpath, -⟩ := mem_allFields.mp hfield
    exact hdefinitions _ hpath
  have hcontent := h.contentOf_top hinner htop
  have hcall : call ctx answer initial s (.str id) =
      initial.respond (contentOf ctx answer s (.str id)) := by
    have htruthy : (Json.str id).truthy = true := by simpa [Json.truthy] using hid
    rw [call, run_get h.toSteady, if_pos htruthy]
  obtain ⟨a, ha⟩ := exists_respond_of_definitions initial hcontent hfields h.contentOf_values
  obtain ⟨hleaves, hanswer⟩ := respond_leaves initial (contentOf ctx answer s (.str id))
  have hfresh := fresh_initial.respond hcontent hfields
  have hmet : (contentOf ctx answer s (.str id)).met =
      meetings (allFields top) := by rw [Content.met, hcontent]
  rw [hmet] at hleaves
  refine ⟨walks_allFields top, a, (initial.respond (contentOf ctx answer s (.str id))).2.properties,
    hcall ▸ ha, ?_, fun name => ?_, fun entry hentry => ?_⟩
  · rw [hanswer a ha]
    rfl
  · have hnames : Fields.names (initial.respond (contentOf ctx answer s (.str id))).2.properties =
        (initial.respond (contentOf ctx answer s (.str id))).2.names := List.map_map
    have hinitial : initial.names = standard.map Prod.fst := List.map_map
    rw [hnames, hleaves.names, hinitial, exists_mem_meetings_iff hfields]
  · obtain ⟨description, hdescription, hunmarked, hfull⟩ := hfresh.described hentry
    refine ⟨description, hdescription, hunmarked, fun hfound => ?_⟩
    obtain ⟨kind, hkind⟩ := (exists_mem_meetings_iff hfields _).mpr hfound
    exact hfull kind (hleaves.traces _ hkind) (hashable_of_mem_meetings hfields _ hkind)

/-- The fields of items with a platform, an angle of view, and a note that is not indexed. -/
def viewedFields : Fields :=
  [("id", .single "type" (.str "keyword")), ("properties", .single "properties" (.obj [
      ("platform", .single "type" (.str "keyword")),
      ("view", .single "properties" (.single "angle" (.single "type" (.str "float")))),
      ("note", .obj [("type", .str "object"), ("enabled", .bool false)])]))]

def viewedMappings : Json :=
  .single "items_c" (.single "mappings" (.single "properties" (.obj viewedFields)))

/-- A database that is its mappings, and whose items are all of one platform. -/
def answerPlatform (mappings : Json) : Call → Reply × Json
  | .getMapping _ _ => (.value mappings, mappings)
  | .uniqueValues _ fields _ =>
    (.value (.single "aggregations" (.obj (if .str "properties.platform" ∈ fields then
      [("properties.platform", .single "buckets" (.arr [.single "key" (.str "sentinel-2a")]))]
        else []))), mappings)
  | _ => (.value .null, mappings)

/-- The platform and the angle are found, under names without `properties.`; the note is not, nor is
the view, which has no type. The platform has lost its mark. -/
theorem call_initial_fields_viewed :
    ∃ a described, (call default answerPlatform initial viewedMappings (.str "c")).1 = .ok a ∧
      a.lookup "properties" = .ok (.obj described) ∧
      (∀ name ∈ ["geometry", "platform", "view.angle"], name ∈ Fields.names described) ∧
      (∀ name ∈ ["properties.platform", "angle", "view", "note"], name ∉ Fields.names described) ∧
      ∀ entry ∈ described, entry.1 = "platform" → ∃ description, entry.2 = .obj description ∧
        Fields.has description "$enum" = false ∧ Fields.has description "title" = true ∧
          Fields.has description "type" = true := by
  have htells : Tells default answerPlatform viewedMappings "c" viewedMappings := {
    mapping := fun _ _ => rfl
    values := fun _ _ _ => rfl
    reads := rfl
    reports := by
      refine fun fields size => ⟨_, rfl, _, rfl, fun entry hentry => ?_⟩
      split at hentry
      · rename_i hasked
        cases List.mem_singleton.mp hentry
        exact ⟨hasked, _, rfl,
          fun bucket hbucket => by cases List.mem_singleton.mp hbucket; exact ⟨_, rfl⟩⟩
      · cases hentry }
  obtain ⟨-, a, described, ha, hdescribed, hnames, hentries⟩ :=
    call_initial_fields (by decide) htells (by rfl) (by rfl) (by decide)
  have hpresent : ∀ name ∈ ["geometry", "platform", "view.angle"],
      name ∈ standard.map Prod.fst ∨ Finds viewedFields name := by decide +kernel
  have habsent : ∀ name ∈ ["properties.platform", "angle", "view", "note"],
      ¬ (name ∈ standard.map Prod.fst ∨ Finds viewedFields name) := by decide +kernel
  refine ⟨a, described, ha, hdescribed, fun name hname => (hnames name).mpr (hpresent name hname),
    fun name hname hmem => habsent name hname ((hnames name).mp hmem),
      fun entry hentry hplatform => ?_⟩
  obtain ⟨description, heq, hunmarked, hfull⟩ := hentries entry hentry
  exact ⟨description, heq, hunmarked, hfull (by rw [hplatform]; decide +kernel)⟩

end Databases

end Queryables

end StacCatalog
