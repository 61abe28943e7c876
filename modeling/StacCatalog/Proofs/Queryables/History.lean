import StacCatalog.Api.Queryables
import StacCatalog.Proofs.Json.Access
import StacCatalog.Proofs.Json.Fields
import StacCatalog.Proofs.Program.Keeps
import Mathlib.Data.List.Induction

/-!
# What a call leaves behind for the calls after it
-/

namespace StacCatalog

open List Fields Json

variable {q : Queryables} {description : Fields} {name : String} {kind : Json} {r : Queryables}
  {fields : List Queryables.FieldDef}

namespace Queryables

/-! ### Meetings -/

/-- The fields that are met in a list of fields, by name and kind, up to one that stops the walk. -/
def meetings : List FieldDef → List (String × Json)
  | [] => []
  | (field, definition) :: rest =>
    match kindOf definition with
    | .error _ => []
    | .ok none => meetings rest
    -- A kind that is no key stops the walk, but only after the field has been published.
    | .ok (some kind) =>
      (publicName field, kind) :: if kind.hashable.isOk then meetings rest else []

/-- A description with the details that are filled in when the field is met. -/
def filled (description : Fields) (name : String) (kind : Json) : Fields :=
  let titled := detail description "title" (.str (titleOf name))
  if kind.hashable.isOk then
    let typed := detail titled "type" (jsonType kind)
    erase (if isTime kind then detail typed "format" (.str "date-time") else typed) "$enum"
  else titled

/-- The description of a field after it is met. -/
def filledIn (q : Queryables) (name : String) (kind : Json) : Fields :=
  filled (q.describe name) name kind

def metAll (q : Queryables) (met : List (String × Json)) : Queryables :=
  met.foldl (fun q m => q.publish m.1 (q.filledIn m.1 m.2)) q

def lists (q : Queryables) (name : String) : Bool :=
  (getD (q.describe name) "$enum").truthy

theorem get?_detail (description : Fields) (name other : String) (value : Json) (h : other ≠ name) :
    get? (detail description name value) other = get? description other := by
  unfold detail
  split
  · rfl
  · rw [get?_insert, if_neg h]

theorem has_detail (description : Fields) (name other : String) (value : Json) :
    has (detail description name value) other = true ↔
      other = name ∨ has description other = true := by
  unfold detail
  split
  · rename_i h
    exact ⟨.inr, fun hor => hor.elim (fun hname => hname ▸ h) id⟩
  · exact has_insert description name other value

/-- A meeting publishes a field with its details filled in, and says whether its values are to be
listed. -/
theorem meet_eq (q : Queryables) (name : String) (kind : Json) :
    q.meet name kind =
      (kind.hashable.map fun _ => q.lists name, q.publish name (q.filledIn name kind)) := by
  cases h : kind.hashable with
  | error fault => simp [meet, filledIn, filled, h, Except.isOk, Except.toBool, Except.map]
  | ok u =>
    have hlists : ∀ description : Fields,
        Fields.get? description "$enum" = Fields.get? (q.describe name) "$enum" →
        (Fields.getD description "$enum").truthy = q.lists name := by
      intro description hget
      rw [lists, Fields.getD, hget, Fields.getD]
    simp only [meet, filledIn, filled, h, Except.isOk, Except.toBool, Except.map, if_true,
      Prod.mk.injEq, and_true, Except.ok.injEq]
    refine hlists _ ?_
    split <;> simp [get?_detail]

theorem meetAll_snd (q : Queryables) (fields : List FieldDef) :
    (q.meetAll fields).2 = q.metAll (meetings fields) := by
  induction fields generalizing q with
  | nil => rfl
  | cons entry rest ih =>
    obtain ⟨field, definition⟩ := entry
    rw [meetAll, meetings]
    cases kindOf definition with
    | error fault => rfl
    | ok kind? =>
      cases kind? with
      | none => exact ih q
      | some kind =>
        simp only [meet_eq]
        cases hhash : kind.hashable with
        | error fault => rfl
        | ok u => exact ih _

theorem exists_of_map_eq_ok {α β : Type} {o : Outcome α} {f : α → β} {b : β} (h : o.map f = .ok b) :
    ∃ a, o = .ok a ∧ f a = b := by
  cases o with
  | ok a => exact ⟨a, rfl, Except.ok.inj h⟩
  | error fault => cases h

/-! ### Growth -/

def names (q : Queryables) : List String :=
  q.published.map Prod.fst

/-- What is there stays: names that are published, and details of what is described beforehand. -/
structure Grows (q r : Queryables) : Prop where
  names : ∀ name ∈ q.names, name ∈ r.names
  known : ∀ name, (r.known.lookup name).isSome = (q.known.lookup name).isSome
  details : ∀ name detail, detail ≠ "$enum" → has (q.describe name) detail = true →
    has (r.describe name) detail = true

namespace Grows

theorem refl (q : Queryables) : q.Grows q :=
  ⟨fun _ h => h, fun _ => rfl, fun _ _ _ h => h⟩

theorem trans {r t : Queryables} (h : q.Grows r) (h' : r.Grows t) : q.Grows t where
  names name hname := h'.names name (h.names name hname)
  known name := (h'.known name).trans (h.known name)
  details name detail hdetail hhas := h'.details name detail hdetail
    (h.details name detail hdetail hhas)

end Grows

theorem mem_names_publish {name other : String} :
    other ∈ (q.publish name description).names ↔ other = name ∨ other ∈ q.names := by
  have hnames : (q.publish name description).names =
      if name ∈ q.names then q.names else q.names ++ [name] := by
    unfold publish names
    split <;> exact Keyed.keys_set _ _ _
  rw [hnames]
  split
  · rename_i h
    exact ⟨.inr, fun hor => hor.elim (fun hname => hname ▸ h) id⟩
  · rw [mem_append, mem_singleton, or_comm]

theorem lookup_known_publish (q : Queryables) (name other : String) (description : Fields) :
    (q.publish name description).known.lookup other =
      if other = name ∧ (q.known.lookup name).isSome = true then some description
        else q.known.lookup other := by
  unfold publish
  by_cases hknown : (q.known.lookup name).isSome = true
  · rw [if_pos hknown, Keyed.lookup_set]
    simp only [hknown, and_true]
  · rw [if_neg hknown, if_neg fun h => hknown h.2]

theorem isSome_known_publish (q : Queryables) (name : String) (description : Fields)
    (other : String) :
    ((q.publish name description).known.lookup other).isSome = (q.known.lookup other).isSome := by
  rw [lookup_known_publish]
  split
  · rename_i hother
    rw [hother.1, hother.2, Option.isSome_some]
  · rfl

theorem grows_publish
    (h : ∀ detail,
      detail ≠ "$enum" → has (q.describe name) detail = true → has description detail = true) :
    q.Grows (q.publish name description) where
  names other hother := mem_names_publish.mpr (.inr hother)
  known := isSome_known_publish q name description
  details other detail hdetail hhas := by
    rw [describe, lookup_known_publish]
    split
    · rename_i hother
      rw [Option.getD_some]
      exact h detail hdetail (hother.1 ▸ hhas)
    · exact hhas

/-- What is described beforehand is published under that description. -/
def Shared (q : Queryables) : Prop :=
  ∀ name own, (q.known.lookup name).isSome = true → q.published.lookup name = some own → own = none

theorem Shared.publish (h : q.Shared) (name : String) (description : Fields) :
    (q.publish name description).Shared := by
  intro other own hknown hpublished
  rw [isSome_known_publish] at hknown
  by_cases hother : other = name
  · rw [hother] at hknown hpublished
    rw [Queryables.publish, if_pos hknown, Keyed.lookup_set, if_pos rfl] at hpublished
    exact (Option.some.inj hpublished).symm
  · refine h other own hknown ?_
    rw [← hpublished, Queryables.publish]
    split <;> rw [Keyed.lookup_set, if_neg hother]

/-! ### Meetings leave traces -/

def detailsOf (kind : Json) : List String :=
  "title" :: if kind.hashable.isOk then "type" :: if isTime kind then ["format"] else [] else []

theorem has_filledIn (q : Queryables) (name : String) (kind : Json) {detail : String}
    (hdetail : detail ≠ "$enum") :
    has (q.filledIn name kind) detail = true ↔
      detail ∈ detailsOf kind ∨ has (q.describe name) detail = true := by
  unfold filledIn filled detailsOf
  cases kind.hashable.isOk with
  | false =>
    simp only [Bool.false_eq_true, if_false, has_detail, mem_singleton]
  | true =>
    cases isTime kind with
    | false =>
      simp only [Bool.false_eq_true, if_true, if_false, has_erase,
        has_detail, mem_cons, not_mem_nil]
      grind
    | true =>
      simp only [if_true, has_erase, has_detail, mem_cons, not_mem_nil]
      grind

theorem ne_of_mem_detailsOf {detail : String} (h : detail ∈ detailsOf kind) : detail ≠ "$enum" := by
  unfold detailsOf at h
  rintro rfl
  split at h
  · split at h <;> simp at h
  · simp at h

/-- A field that was met: it is published, and if it is described beforehand, its details are filled
in. -/
structure Met (q : Queryables) (name : String) (kind : Json) : Prop where
  published : name ∈ q.names
  details : (q.known.lookup name).isSome = true → ∀ detail ∈ detailsOf kind,
    has (q.describe name) detail = true

theorem Met.grows (h : q.Met name kind) (hgrows : q.Grows r) : r.Met name kind where
  published := hgrows.names name h.published
  details hknown detail hdetail := by
    rw [hgrows.known] at hknown
    exact hgrows.details name detail (ne_of_mem_detailsOf hdetail) (h.details hknown detail hdetail)

theorem grows_meeting (q : Queryables) (name : String) (kind : Json) :
    q.Grows (q.publish name (q.filledIn name kind)) :=
  grows_publish fun _ h => (has_filledIn q name kind h).mpr ∘ .inr

theorem known_of_lists (h : q.lists name = true) : (q.known.lookup name).isSome = true := by
  rw [lists, describe] at h
  cases hlookup : q.known.lookup name with
  | none =>
    rw [hlookup] at h
    cases h
  | some description => rfl

/-- Only fields that are met and described beforehand are listed. -/
theorem meetAll_fst {q : Queryables} {listed : List String}
    (h : (q.meetAll fields).1 = .ok listed) :
    ∀ field ∈ listed, (∃ kind, (publicName field, kind) ∈ meetings fields) ∧
      (q.known.lookup (publicName field)).isSome = true := by
  induction fields generalizing q listed with
  | nil =>
    cases h
    nofun
  | cons entry rest ih =>
    obtain ⟨full, definition⟩ := entry
    rw [meetAll] at h
    rw [meetings]
    cases hkind : kindOf definition with
    | error fault => rw [hkind] at h; cases h
    | ok kind? =>
      rw [hkind] at h
      cases kind? with
      | none => exact ih h
      | some kind =>
        simp only [meet_eq] at h
        cases hhash : kind.hashable with
        | error fault => rw [hhash] at h; cases h
        | ok u =>
          rw [hhash] at h
          obtain ⟨others, hothers, rfl⟩ := exists_of_map_eq_ok h
          intro field hfield
          have hcases : (field = full ∧ q.lists (publicName full) = true) ∨ field ∈ others := by
            split at hfield
            · rename_i hlists
              exact (mem_cons.mp hfield).imp_left fun heq => ⟨heq, hlists⟩
            · exact .inr hfield
          rcases hcases with ⟨rfl, hlists⟩ | hmem
          · exact ⟨⟨kind, mem_cons_self⟩, known_of_lists hlists⟩
          · obtain ⟨⟨kind', hkind'⟩, hknown⟩ := ih hothers field hmem
            rw [(grows_meeting q (publicName full) kind).known] at hknown
            refine ⟨⟨kind', mem_cons_of_mem _ ?_⟩, hknown⟩
            simpa [hhash, Except.isOk, Except.toBool] using hkind'

/-! ### What is left behind -/

/-- What is there afterwards: all that was there, and what was met. -/
structure Leaves (q : Queryables) (met : List (String × Json)) (r : Queryables) : Prop where
  grows : q.Grows r
  shared : q.Shared → r.Shared
  traces : ∀ m ∈ met, r.Met m.1 m.2
  names : ∀ name, name ∈ r.names ↔ name ∈ q.names ∨ ∃ kind, (name, kind) ∈ met

namespace Leaves

theorem nil (q : Queryables) : q.Leaves [] q where
  grows := .refl q
  shared := id
  traces := nofun
  names name := by simp

theorem trans {r t : Queryables} {met more : List (String × Json)} (h : q.Leaves met r)
    (h' : r.Leaves more t) : q.Leaves (met ++ more) t where
  grows := h.grows.trans h'.grows
  shared := h'.shared ∘ h.shared
  traces m hm := (mem_append.mp hm).elim (fun hm => (h.traces m hm).grows h'.grows) (h'.traces m)
  names name := by
    rw [h'.names, h.names, or_assoc, ← exists_or]
    simp only [mem_append]

theorem meeting (q : Queryables) (name : String) (kind : Json) :
    q.Leaves [(name, kind)] (q.publish name (q.filledIn name kind)) where
  grows := grows_meeting q name kind
  shared h := h.publish name _
  traces m hm := by
    cases mem_singleton.mp hm
    refine ⟨mem_names_publish.mpr (.inl rfl), fun hknown detail hdetail => ?_⟩
    rw [(grows_meeting q name kind).known] at hknown
    rw [describe, lookup_known_publish, if_pos ⟨rfl, hknown⟩, Option.getD_some]
    exact (has_filledIn q name kind (ne_of_mem_detailsOf hdetail)).mpr (.inl hdetail)
  names other := by simp [mem_names_publish, or_comm]

theorem metAll (q : Queryables) (met : List (String × Json)) : q.Leaves met (q.metAll met) := by
  induction met generalizing q with
  | nil => exact .nil q
  | cons m rest ih => exact (meeting q m.1 m.2).trans (ih _)

/-- The values of a field that is published add no name. -/
theorem enum (h : name ∈ q.names) (values : Json) :
    q.Leaves [] (q.publish name (insert (q.describe name) "enum" values)) where
  grows := grows_publish fun _ _ h => (has_insert _ _ _ _).mpr (.inr h)
  shared h := h.publish name _
  traces := nofun
  names other := by
    rw [mem_names_publish]
    grind

theorem listValues {listed : List String} (h : ∀ field ∈ listed, publicName field ∈ q.names)
    (values : List (String × Json)) : q.Leaves [] (q.listValues listed values).2 := by
  induction values generalizing q with
  | nil => exact .nil q
  | cons entry rest ih =>
    obtain ⟨field, given⟩ := entry
    rw [Queryables.listValues]
    split
    · rename_i hlisted
      have hstep := enum (h field (contains_iff_mem.mp hlisted)) given
      exact hstep.trans (ih fun field hfield => hstep.grows.names _ (h field hfield))
    · exact .nil q

end Leaves

/-! ### A call -/

/-- What the database says of a collection: the fields at the top of its mapping, and the values of
fields. -/
structure Content where
  top : Outcome Fields
  values : List String → Outcome Fields

def Content.met (content : Content) : List (String × Json) :=
  match content.top with
  | .ok top => meetings (allFields top)
  | .error _ => []

/-- The answer about a collection of which the database says something, and the queryables
afterwards. -/
def respond (q : Queryables) (content : Content) : Outcome Json × Queryables :=
  match content.top with
  | .error fault => (.error fault, q)
  | .ok top =>
    match q.meetAll (allFields top) with
    | (.error fault, q) => (.error fault, q)
    | (.ok [], q) => (.ok (q.toJson false), q)
    | (.ok listed, q) =>
      match content.values listed with
      | .error fault => (.error fault, q)
      | .ok values =>
        match q.listValues listed values with
        | (.error fault, q) => (.error fault, q)
        | (.ok (), q) => (.ok (q.toJson false), q)

section Calls

open Program

variable {σ : Type} {ctx : Context} {answer : Answering σ} {s : σ}

/-- A database that stays as it is when it is asked for mappings and for values of fields. -/
structure Steady (answer : Answering σ) (s : σ) : Prop where
  mapping : ∀ index strict, (answer s (.getMapping index strict)).2 = s
  values : ∀ index fields size, (answer s (.uniqueValues index fields size)).2 = s

/-- What the database has of a collection. -/
def contentOf (ctx : Context) (answer : Answering σ) (s : σ) (collection : Json) :
    Content where
  top := ((do topFields (← Items.mapping ctx collection) : Program Fields).run answer s).1
  values listed := ((Items.uniqueValues ctx collection (Json.ofStrings listed) (.int 100)).run
    answer s).1

theorem run_attempt {α : Type} (p : Program α) :
    (attempt p).run answer s = (.ok (p.run answer s).1, (p.run answer s).2) := by
  unfold attempt
  rw [run_recover, run_bind]
  cases p.run answer s with
  | mk outcome t => cases outcome <;> rfl

theorem run_top (h : Steady answer s) (collection : Json) :
    ((do topFields (← Items.mapping ctx collection) : Program Fields).run answer s).2 = s := by
  have hmapping : Keeps answer (· = s) (Items.mapping ctx collection) fun _ => True := by
    refine .liftM_bind fun index _ => Keeps.orMissing (.perform ?_ fun _ _ _ _ => trivial)
    rintro _ rfl
    exact h.mapping index true
  exact ((hmapping.bind fun _ _ => .liftM fun _ _ => trivial) s rfl).1

theorem run_values (h : Steady answer s) (collection fields limit : Json) :
    ((Items.uniqueValues ctx collection fields limit).run answer s).2 = s := by
  have hvalues :
      Keeps answer (· = s) (Items.uniqueValues ctx collection fields limit) fun _ => True := by
    refine .liftM_bind fun size _ => .liftM_bind fun index _ => .liftM_bind fun names _ => ?_
    refine (Keeps.forM fun name _ => .liftM fun _ _ => trivial).bind fun _ _ =>
      (Keeps.perform ?_ fun _ _ _ _ => trivial).bind fun reply _ =>
      .liftM_bind fun aggregations _ => .liftM_bind fun entries _ => .liftM fun _ _ => trivial
    rintro _ rfl
    exact h.values index names size
  exact (hvalues s rfl).1

/-- A call answers by what the database says, and leaves the database as it is. -/
theorem run_get (h : Steady answer s) (q : Queryables) (collection : Json) :
    (get ctx q collection).run answer s =
      (.ok (if collection.truthy then q.respond (contentOf ctx answer s collection)
            else (.ok (q.toJson true), q)), s) := by
  unfold get
  cases htruthy : collection.truthy with
  | false => rfl
  | true =>
    simp only [Bool.not_true, Bool.false_eq_true, if_false, if_true]
    rw [run_bind_ok (run_attempt _), run_top h, respond]
    -- From here on, both sides match on what was read.
    change (match (contentOf ctx answer s collection).top with
      | .error fault => _
      | .ok top => _ : Program (Outcome Json × Queryables)).run answer s = _
    cases (contentOf ctx answer s collection).top with
    | error fault => rfl
    | ok top =>
      dsimp only
      generalize q.meetAll (allFields top) = walk
      obtain ⟨outcome, q⟩ := walk
      cases outcome with
      | error fault => rfl
      | ok listed =>
        cases listed with
        | nil => rfl
        | cons field others =>
          dsimp only
          rw [run_bind_ok (run_attempt _), run_values h]
          change (match (contentOf ctx answer s collection).values (field :: others) with
            | .error fault => _
            | .ok values => _ : Program (Outcome Json × Queryables)).run answer s = _
          cases (contentOf ctx answer s collection).values (field :: others) with
          | error fault => rfl
          | ok values =>
            dsimp only
            generalize q.listValues (field :: others) values = listing
            obtain ⟨outcome, q⟩ := listing
            cases outcome <;> rfl

end Calls

/-- What comes of an answer about a collection whose mapping is read: the fields are met, and the
values of those that are to be listed may be added. An answer shows the queryables as they are then.
-/
theorem respond_cases (q : Queryables) {content : Content} {top : Fields}
    (htop : content.top = .ok top) :
    ((q.respond content).2 = q.metAll (meetings (allFields top)) ∨
      ∃ field others values, (q.meetAll (allFields top)).1 = .ok (field :: others) ∧
        (q.respond content).2 =
          ((q.metAll (meetings (allFields top))).listValues (field :: others) values).2) ∧
    ∀ a, (q.respond content).1 = .ok a → a = (q.respond content).2.toJson false := by
  rw [respond, htop, ← meetAll_snd]
  dsimp only
  generalize q.meetAll (allFields top) = walk
  obtain ⟨outcome, r⟩ := walk
  cases outcome with
  | error fault => exact ⟨.inl rfl, nofun⟩
  | ok listed =>
    cases listed with
    | nil => exact ⟨.inl rfl, fun a h => (Except.ok.inj h).symm⟩
    | cons field others =>
      dsimp only
      cases content.values (field :: others) with
      | error fault => exact ⟨.inl rfl, nofun⟩
      | ok values =>
        refine ⟨.inr ⟨field, others, values, rfl, ?_⟩, ?_⟩ <;> dsimp only <;>
          generalize r.listValues (field :: others) values = listing <;> obtain ⟨outcome, t⟩ :=
            listing
        · cases outcome <;> rfl
        · cases outcome with
          | error fault => nofun
          | ok u => exact fun a h => (Except.ok.inj h).symm

/-- A call leaves what it has met, whatever comes of it, and an answer shows the queryables as they
are then. -/
theorem respond_leaves (q : Queryables) (content : Content) :
    q.Leaves content.met (q.respond content).2 ∧
    ∀ a, (q.respond content).1 = .ok a → a = (q.respond content).2.toJson false := by
  unfold Content.met
  cases htop : content.top with
  | error fault =>
    rw [respond, htop]
    exact ⟨.nil q, nofun⟩
  | ok top =>
    -- The walk leaves what it has met even where it is stopped; listing values adds no names to
    -- that.
    have hwalk := Leaves.metAll q (meetings (allFields top))
    obtain ⟨hstate | ⟨field, others, values, hlisted, hstate⟩, hanswer⟩ := q.respond_cases htop
    · exact ⟨hstate ▸ hwalk, hanswer⟩
    · have hvalues := hwalk.trans
        (.listValues (fun other hother =>
          (hwalk.names _).mpr (.inr (meetAll_fst hlisted other hother).1)) values)
      rw [append_nil] at hvalues
      exact ⟨hstate ▸ hvalues, hanswer⟩

/-! ### Fields that are described in full -/

/-- Whether a standard field is described with all the details that meeting it would fill in. -/
def inFull (name : String) (kind : Json) : Bool :=
  match standard.lookup name with
  | some description => (detailsOf kind).all (has description)
  | none => false

theorem inFull_iff :
    inFull name kind = true ↔
      ∃ description, standard.lookup name = some description ∧
        ∀ detail ∈ detailsOf kind, has description detail = true := by
  unfold inFull
  cases standard.lookup name <;> simp

theorem lookup_known_initial (h : standard.lookup name = some description) :
    initial.known.lookup name = some description := by
  rw [initial, lookup_append, h, Option.some_or]

theorem lookup_published_initial (name : String) :
    initial.published.lookup name = (standard.lookup name).map fun _ => none :=
  Keyed.lookup_map standard (fun _ _ => none) name

theorem detail_of_has (h : has description name = true) (value : Json) :
    detail description name value = description :=
  if_pos h

theorem filled_of_has (henum : has description "$enum" = false)
    (h : ∀ detail ∈ detailsOf kind, has description detail = true) :
    filled description name kind = description := by
  unfold detailsOf at h
  rw [filled, detail_of_has (h "title" mem_cons_self)]
  dsimp only
  split
  · rename_i hhash
    rw [if_pos hhash] at h
    rw [detail_of_has (h "type" (by simp))]
    have hformat :
          (if isTime kind then detail description "format" (.str "date-time") else description) =
        description := by
      split
      · rename_i htime
        exact detail_of_has (h "format" (by simp [htime])) _
      · rfl
    rw [hformat, erase_of_not_has henum]
  · rfl

theorem has_enum_standard : ∀ entry ∈ standard, has entry.2 "$enum" = false := by decide +kernel

theorem meeting_initial (h : inFull name kind = true) :
    initial.publish name (initial.filledIn name kind) = initial ∧ initial.lists name = false := by
  obtain ⟨description, hstandard, hdetails⟩ := inFull_iff.mp h
  have hknown := lookup_known_initial hstandard
  have hdescribe : initial.describe name = description := by rw [describe, hknown, Option.getD_some]
  have henum := has_enum_standard _ (Keyed.mem_of_lookup hstandard)
  constructor
  · have hpublished : initial.published.lookup name =
      some none := by rw [lookup_published_initial, hstandard]; rfl
    rw [filledIn, hdescribe, filled_of_has henum hdetails, publish, hknown,
      Option.isSome_some, if_pos rfl, Keyed.set_of_lookup hknown, Keyed.set_of_lookup hpublished]
  · rw [lists, hdescribe, Fields.getD, Fields.has_eq_false_iff.mp henum]
    rfl

theorem meetAll_initial (h : ∀ m ∈ meetings fields, inFull m.1 m.2 = true) :
    (initial.meetAll fields).2 = initial ∧
    ∀ listed, (initial.meetAll fields).1 = .ok listed → listed = [] := by
  induction fields with
  | nil => exact ⟨rfl, fun listed hlisted => (Except.ok.inj hlisted).symm⟩
  | cons entry rest ih =>
    obtain ⟨field, definition⟩ := entry
    rw [meetings] at h
    rw [meetAll]
    cases hkind : kindOf definition with
    | error fault => exact ⟨rfl, nofun⟩
    | ok kind? =>
      rw [hkind] at h
      cases kind? with
      | none => exact ih h
      | some kind =>
        obtain ⟨hpublish, hlists⟩ := meeting_initial (h _ mem_cons_self)
        simp only [meet_eq, hpublish, hlists]
        cases hhash : kind.hashable with
        | error fault => exact ⟨rfl, nofun⟩
        | ok u =>
          have hrest : ∀ m ∈ meetings rest, inFull m.1 m.2 = true := by
            dsimp only at h
            rw [hhash] at h
            exact fun m hm => h m (mem_cons_of_mem _ hm)
          obtain ⟨hstate, hnone⟩ := ih hrest
          refine ⟨hstate, fun listed hlisted => ?_⟩
          obtain ⟨others, hothers, rfl⟩ := exists_of_map_eq_ok hlisted
          exact hnone others hothers

/-- A call that meets nothing but fields that are described in full leaves nothing behind. -/
theorem respond_initial {content : Content} (h : ∀ m ∈ content.met, inFull m.1 m.2 = true) :
    (initial.respond content).2 = initial := by
  unfold Content.met at h
  cases htop : content.top with
  | error fault => rw [respond, htop]
  | ok top =>
    rw [htop] at h
    obtain ⟨hstate, hnone⟩ := meetAll_initial h
    obtain ⟨hmet | ⟨field, others, values, hlisted, -⟩, -⟩ := initial.respond_cases htop
    · rw [hmet, ← meetAll_snd, hstate]
    · cases hnone _ hlisted

/-! ### Histories -/

section Histories

variable {σ : Type} {ctx : Context} {answer : Answering σ}

/-- What comes of a call: an answer or a fault, and the queryables afterwards. -/
def call (ctx : Context) (answer : Answering σ) (q : Queryables) (s : σ)
    (collection : Json) : Outcome Json × Queryables :=
  match ((get ctx q collection).run answer s).1 with
  | .ok given => given
  | .error fault => (.error fault, q)

/-- The queryables after calls, each of which finds the database in a state of its own. -/
def after (ctx : Context) (answer : Answering σ) (history : List (σ × Json)) :
    Queryables :=
  history.foldl (fun q asked => (call ctx answer q asked.1 asked.2).2) initial

def metBy (ctx : Context) (answer : Answering σ) (asked : σ × Json) :
    List (String × Json) :=
  if asked.2.truthy then (contentOf ctx answer asked.1 asked.2).met else []

def describedIn (answer : Json) : List String :=
  match answer.lookup "properties" with
  | .ok (.obj described) => Fields.names described
  | _ => []

theorem describedIn_toJson (q : Queryables) (additional : Bool) :
    describedIn (q.toJson additional) = q.names := by
  have hproperties : (q.toJson additional).lookup "properties" = .ok (.obj q.properties) := rfl
  rw [describedIn, hproperties]
  exact map_map

theorem call_eq (h : ∀ s, Steady answer s) (q : Queryables) (s : σ) (collection : Json) :
    call ctx answer q s collection =
      if collection.truthy then q.respond (contentOf ctx answer s collection)
        else (.ok (q.toJson true), q) := by
  rw [call, run_get (h s)]

theorem call_leaves (h : ∀ s, Steady answer s) (q : Queryables) (asked : σ × Json) :
    q.Leaves (metBy ctx answer asked) (call ctx answer q asked.1 asked.2).2 ∧
      ∀ a, (call ctx answer q asked.1 asked.2).1 = .ok a →
        ∃ additional, a = (call ctx answer q asked.1 asked.2).2.toJson additional := by
  rw [call_eq h, metBy]
  split
  · obtain ⟨hleaves, hanswer⟩ := respond_leaves q (contentOf ctx answer asked.1 asked.2)
    exact ⟨hleaves, fun a ha => ⟨false, hanswer a ha⟩⟩
  · exact ⟨.nil q, fun a ha => ⟨true, (Except.ok.inj ha).symm⟩⟩

theorem after_append (history : List (σ × Json)) (asked : σ × Json) :
    after ctx answer (history ++ [asked]) =
      (call ctx answer (after ctx answer history) asked.1 asked.2).2 :=
  foldl_append

/-- What is there after calls: the standard fields, and all that was met in one of them. -/
theorem after_leaves (h : ∀ s, Steady answer s) (history : List (σ × Json)) :
    initial.Leaves (history.flatMap (metBy ctx answer)) (after ctx answer history) := by
  induction history using reverseRecOn with
  | nil => exact .nil initial
  | append_singleton history asked ih =>
    rw [after_append, flatMap_append, flatMap_singleton]
    exact ih.trans (call_leaves h _ asked).1

/-- After calls that met nothing but fields that are described in full, all is as it was. -/
theorem after_of_inFull (h : ∀ s, Steady answer s) {history : List (σ × Json)}
    (hfull : ∀ m ∈ history.flatMap (metBy ctx answer), inFull m.1 m.2 = true) :
    after ctx answer history = initial := by
  induction history using reverseRecOn with
  | nil => rfl
  | append_singleton history asked ih =>
    rw [flatMap_append, flatMap_singleton] at hfull
    rw [after_append, ih fun m hm => hfull m (mem_append_left _ hm), call_eq h]
    split
    · rename_i htruthy
      refine respond_initial fun m hm => hfull m (mem_append_right _ ?_)
      rwa [metBy, if_pos htruthy]
    · rfl

theorem lookup_properties (q : Queryables) (name : String) :
    q.properties.lookup name =
      (q.published.lookup name).map fun own => .obj (own.getD (q.describe name)) :=
  Keyed.lookup_map q.published (fun name own => Json.obj (own.getD (q.describe name))) name

theorem shared_initial : initial.Shared := by
  intro name own _ hpublished
  rw [lookup_published_initial] at hpublished
  obtain ⟨_, _, rfl⟩ := Option.map_eq_some_iff.mp hpublished
  rfl

/-- Where the queryables look as at the start, all that was met is described in full. -/
theorem inFull_of_same {met : List (String × Json)} (h : initial.Leaves met q)
    (hsame : (q.toJson true).same (initial.toJson true) = true) :
    ∀ m ∈ met, inFull m.1 m.2 = true := by
  rintro ⟨name, kind⟩ hm
  have hproperties : Json.sameFields q.properties initial.properties = true := by
    obtain ⟨_, hfound, hsame⟩ := sameFields_iff.mp (sameFields_of_same hsame) _ _
      (show ("properties", Json.obj q.properties) ∈ _ by simp)
    cases hfound
    exact sameFields_of_same hsame
  have hmet := h.traces _ hm
  obtain ⟨own, hown⟩ := Keyed.exists_lookup hmet.published
  -- The description that is shown has a twin at the start, so the field is a standard one.
  obtain ⟨twin, htwin, hdescription⟩ := sameFields_iff.mp hproperties _ _
    (Keyed.mem_of_lookup ((lookup_properties q name).trans (congrArg (Option.map _) hown)))
  rw [get?, lookup_properties, lookup_published_initial, Option.map_map] at htwin
  obtain ⟨description, hstandard, rfl⟩ := Option.map_eq_some_iff.mp htwin
  have hknown := lookup_known_initial hstandard
  have hdescribe : initial.describe name = description := by rw [describe, hknown, Option.getD_some]
  have hknown' : (q.known.lookup name).isSome =
      true := by rw [h.grows.known, hknown, Option.isSome_some]
  cases h.shared shared_initial name own hknown' hown
  -- All details are shown, so the twin has them.
  refine inFull_iff.mpr ⟨description, hstandard, fun detail hdetail => ?_⟩
  obtain ⟨value, hvalue⟩ := Option.isSome_iff_exists.mp (hmet.details hknown' detail hdetail)
  obtain ⟨other, hother, -⟩ :=
    sameFields_iff.mp (sameFields_of_same hdescription) _ _ (Keyed.mem_of_lookup hvalue)
  rw [← hdescribe]
  exact Option.isSome_iff_exists.mpr ⟨other, hother⟩

/-- **Histories.** After any calls, whatever they found, the fields that an answer describes are the
standard ones and those that were met in one of the calls, this one included. If all fields met
before are described in full, every answer is that of a fresh start. If one is not, at least the
answer about the catalogue as a whole is another. -/
theorem call_after_history (hsteady : ∀ s, Steady answer s) (history : List (σ × Json)) :
    (∀ s collection a, (call ctx answer (after ctx answer history) s collection).1 = .ok a →
      ∀ name, name ∈ describedIn a ↔
        name ∈ standard.map Prod.fst ∨
        ∃ kind, (name, kind) ∈ (history ++ [(s, collection)]).flatMap (metBy ctx answer)) ∧
    ((∀ m ∈ history.flatMap (metBy ctx answer), inFull m.1 m.2 = true) →
      ∀ s collection, call ctx answer (after ctx answer history) s collection =
        call ctx answer initial s collection) ∧
    ∀ s collection, collection.truthy = false →
      ∃ a b, (call ctx answer (after ctx answer history) s collection).1 = .ok a ∧
        (call ctx answer initial s collection).1 = .ok b ∧
        (a.same b = true ↔ ∀ m ∈ history.flatMap (metBy ctx answer), inFull m.1 m.2 = true) := by
  refine ⟨fun s collection a ha name => ?_, fun hfull s collection => ?_,
    fun s collection hwhole => ?_⟩
  · obtain ⟨additional, rfl⟩ := (call_leaves hsteady _ (s, collection)).2 a ha
    have hleaves : initial.Leaves _ (after ctx answer (history ++ [(s, collection)])) :=
        after_leaves hsteady _
    rw [after_append] at hleaves
    rw [describedIn_toJson, hleaves.names]
    rfl
  · rw [after_of_inFull hsteady hfull]
  · refine ⟨_, _, by rw [call_eq hsteady, hwhole]; rfl, by rw [call_eq hsteady, hwhole]; rfl, ?_,
      fun hfull => ?_⟩
    · exact inFull_of_same (after_leaves hsteady history)
    · rw [after_of_inFull hsteady hfull]
      decide +kernel

def answerMapping (mappings : Json) : Call → Reply × Json
  | .getMapping _ _ => (.value mappings, mappings)
  | _ => (.value .null, mappings)

def mappingsOf (property kind : String) : Json :=
  .single "items_c" (.single "mappings"
    (.single "properties" (.single "properties" (.single "properties"
    (.single property (.single "type" (.str kind)))))))

/-- A property that is described in full leaves no trace; another one shows in the answer about the
catalogue. -/
theorem call_after_history_properties :
    (∀ s collection,
      call default answerMapping
          (after default answerMapping [(mappingsOf "cloud_shadow_percentage" "float", .str "c")]) s
          collection = call default answerMapping initial s collection) ∧
    ∃ a b,
      (call default answerMapping
        (after default answerMapping [(mappingsOf "eo:cloud_cover" "float", .str "c")]) .null
        .null).1 = .ok a ∧
      (call default answerMapping initial .null .null).1 = .ok b ∧ a.same b = false ∧
      "eo:cloud_cover" ∈ describedIn a := by
  have hsteady : ∀ s, Steady answerMapping s := fun s => ⟨fun _ _ => rfl, fun _ _ _ => rfl⟩
  refine ⟨(call_after_history hsteady _).2.1 (by decide +kernel), ?_⟩
  obtain ⟨hnames, -, hwhole⟩ := @call_after_history _ default _ hsteady
      [(mappingsOf "eo:cloud_cover" "float", .str "c")]
  obtain ⟨a, b, ha, hb, hsame⟩ := hwhole .null .null rfl
  refine ⟨a, b, ha, hb, ?_, (hnames .null .null a ha _).mpr
    (Or.inr ⟨.str "float", by decide +kernel⟩)⟩
  rw [← Bool.not_eq_true, hsame]
  decide +kernel

end Histories

end Queryables

end StacCatalog
