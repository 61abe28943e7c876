import Mathlib.Data.List.ProdSigma
import StacCatalog.Proofs.Json.Access
import StacCatalog.Proofs.Json.Fields
import StacCatalog.Routes.Config

/-!
# One route for each path and method
-/

namespace StacCatalog.Routes

open List Json Outcome

/-! ### Routes -/

/-- A text, or a list of texts. -/
inductive Texts where
  | one (text : String)
  | many (texts : List String)

namespace Texts

def list : Texts → List String
  | .one text => [text]
  | .many texts => texts

def json : Texts → Json
  | .one text => .str text
  | .many texts => .ofStrings texts

end Texts

/-- A route with its paths and methods, and whatever else it has. -/
structure Route where
  fields : Fields
  path : Texts
  method : Texts
  path_eq : fields.get? "path" = some path.json
  method_eq : fields.get? "method" = some method.json

namespace Route

def json (r : Route) : Json :=
  .obj r.fields

/-- The route with one path and one method. -/
def single (r : Route) (path method : String) : Fields :=
  (r.fields.insert "path" (.str path)).insert "method" (.str method)

variable (r : Route) (path method : String)

theorem names_single : (r.single path method).names = r.fields.names := by
  have hmem {name : String} {value : Json} (h : r.fields.get? name = some value) : name ∈
      r.fields.names :=
    mem_map_of_mem (Keyed.mem_of_lookup h)
  rw [single, Fields.names_insert, Fields.names_insert, if_pos (hmem r.path_eq),
    if_pos (hmem r.method_eq)]

theorem get?_single (name : String) :
    (r.single path method).get? name =
      if name = "method" then some (.str method)
        else if name = "path" then some (.str path) else r.fields.get? name := by
  rw [single, Fields.get?_insert, Fields.get?_insert]

end Route

/-! ### Spreading -/

/-- **A route is spread** over what stands under a name. -/
theorem spread_obj {fields : Fields} {name : String} {texts : Texts}
    (h : fields.get? name = some texts.json) :
    spread name (.obj fields) =
      .ok (texts.list.map fun text => .obj (fields.insert name (.str text))) := by
  unfold spread
  rw [item_of_get? h, ok_bind]
  cases texts with
  | one text =>
    exact congrArg (fun fields => Except.ok [obj fields]) (Fields.insert_get? h).symm
  | many texts => exact mapM_map_ok fun _ _ => rfl

theorem spreadAll_eq {α : Type} {name : String} {routes : List α} {form : α → Json}
    {spreads : α → List Json} (h : ∀ r ∈ routes, spread name (form r) = .ok (spreads r)) :
    spreadAll name (routes.map form) = .ok (routes.flatMap spreads) := by
  rw [spreadAll, mapM_map_ok h, ok_bind, flatMap_def]
  rfl

theorem expand_eq {entry : Json} {routes : List Route}
    (h : entry.item "routes" = .ok (.arr (routes.map Route.json))) :
    expand entry =
      .ok ((routes.flatMap
            fun r => (r.path.list ×ˢ r.method.list).map fun pair => r.single pair.1 pair.2).map
          .obj) := by
  have hpaths : spreadAll "path" (routes.map Route.json) = .ok _ :=
      spreadAll_eq fun r _ => spread_obj r.path_eq
  -- What is spread over the methods is a route with one of its paths, so the routes are taken
  -- together with these.
  have hpairs : (routes.flatMap
          fun r => r.path.list.map fun path => obj (r.fields.insert "path" (.str path))) =
      (routes.flatMap fun r => r.path.list.map fun path => (r, path)).map
        fun pair => obj (pair.1.fields.insert "path" (.str pair.2)) := by
    simp [map_flatMap, Function.comp_def]
  have hmethod (pair : Route × String) :
      (pair.1.fields.insert "path" (.str pair.2)).get? "method" = some pair.1.method.json := by
    rw [Fields.get?_insert, if_neg (by decide), pair.1.method_eq]
  unfold expand
  rw [h, ok_bind]
  show (spreadAll "path" (routes.map Route.json) >>= spreadAll "method") = _
  rw [hpaths, ok_bind, hpairs, spreadAll_eq fun pair _ => spread_obj (hmethod pair)]
  simp [map_flatMap, flatMap_assoc, flatMap_map, Route.single, SProd.sprod,
    product, Function.comp_def]

/-- **Routes are expanded to the product of their paths and methods**, in the order in which they
are given, then by path, then by method. Each has the names of the route that it comes from, one
path and one method, and all else as it was. -/
theorem expand_eq_product {entry : Json} {routes : List Route}
    (h : entry.item "routes" = .ok (.arr (routes.map Route.json))) :
    expand entry =
      .ok ((routes.flatMap
            fun r => (r.path.list ×ˢ r.method.list).map fun pair => r.single pair.1 pair.2).map
          .obj) ∧
    ∀ r ∈ routes, ∀ path method, (r.single path method).names = r.fields.names ∧
      (r.single path method).get? "path" = some (.str path) ∧
      (r.single path method).get? "method" = some (.str method) ∧
      ∀ name, name ≠ "path" → name ≠ "method" →
        (r.single path method).get? name = r.fields.get? name := by
  refine ⟨expand_eq h, fun r _ path method =>
    ⟨r.names_single path method, r.get?_single path method _, ?_, ?_⟩⟩
  · rw [r.get?_single, if_pos rfl]
  · intro name hpath hmethod
    rw [r.get?_single, if_neg hmethod, if_neg hpath]

/-- Two paths and two methods, one of them twice. -/
def twoByThree : Route where
  fields := [("method", .ofStrings ["GET", "PUT", "GET"]), ("type", .str "t"),
    ("path", .ofStrings ["/a", "/b"])]
  path := .many ["/a", "/b"]
  method := .many ["GET", "PUT", "GET"]
  path_eq := rfl
  method_eq := rfl

theorem expand_eq_product_six :
    ∃ routes : List Fields,
      expand (.obj [("routes", .arr [twoByThree.json])]) = .ok (routes.map .obj) ∧
      routes.map (fun fields => (fields.getD "path", fields.getD "method", fields.getD "type")) =
        [(.str "/a", .str "GET", .str "t"), (.str "/a", .str "PUT", .str "t"),
          (.str "/a", .str "GET", .str "t"), (.str "/b", .str "GET", .str "t"),
          (.str "/b", .str "PUT", .str "t"), (.str "/b", .str "GET", .str "t")] :=
  ⟨_, (@expand_eq_product _ [twoByThree] rfl).1, by decide⟩

/-! ### What a configuration must look like -/

section Forms

variable {α : Type} {p : Json → Bool} {form : α → Json} {P : α → Prop}
    {items : List Json} {v : Json}
  (h : ∀ v, p v = true ↔ ∃ a, v = form a ∧ P a)

include h

theorem all_iff : items.all p = true ↔ ∃ as : List α, items = as.map form ∧ ∀ a ∈ as, P a := by
  induction items with
  | nil => simp
  | cons v items ih =>
    rw [all_cons, Bool.and_eq_true, ih, h]
    constructor
    · rintro ⟨⟨a, rfl, ha⟩, as, rfl, has⟩
      exact ⟨a :: as, rfl, forall_mem_cons.mpr ⟨ha, has⟩⟩
    · rintro ⟨_ | ⟨a, as⟩, heq, has⟩
      · cases heq
      · obtain ⟨rfl, rfl⟩ := cons.inj heq
        exact ⟨⟨a, rfl, has a mem_cons_self⟩, as, rfl, fun b hb => has b (mem_cons_of_mem _ hb)⟩

theorem listOf_iff : listOf p v = true ↔ ∃ as : List α, v = .arr (as.map form) ∧ ∀ a ∈ as, P a := by
  cases v with
  | arr items => simp only [listOf, all_iff h, arr.injEq]
  | _ => simp [listOf]

end Forms

theorem distinct_iff {items : List Json} : distinct items = true ↔ items.Nodup := by
  induction items with
  | nil => simp [distinct]
  | cons v items ih => simp [distinct, ih]

theorem oneOrMany_iff {p : Json → Bool} {P : String → Prop}
    (h : ∀ v, p v = true ↔ ∃ s, v = .str s ∧ P s) {v : Json} :
    oneOrMany p v = true ↔
      ∃ texts : Texts, v = texts.json ∧ texts.list.Nodup ∧ ∀ s ∈ texts.list, P s := by
  have hnodup (texts : List String) : (texts.map str).Nodup ↔ texts.Nodup :=
      nodup_map_iff fun _ _ => str.inj
  unfold oneOrMany
  rw [Bool.or_eq_true, h]
  constructor
  · rintro (⟨s, rfl, hs⟩ | hmany)
    · exact ⟨.one s, rfl, nodup_singleton s, by simpa [Texts.list] using hs⟩
    · split at hmany
      · rw [Bool.and_eq_true, all_iff h, distinct_iff] at hmany
        obtain ⟨⟨texts, rfl, htexts⟩, hdistinct⟩ := hmany
        exact ⟨.many texts, rfl, (hnodup texts).mp hdistinct, htexts⟩
      · cases hmany
  · rintro ⟨texts | texts, rfl, hdistinct, htexts⟩
    · exact .inl ⟨texts, rfl, htexts texts mem_cons_self⟩
    · refine .inr ?_
      show ((texts.map str).all p && distinct (texts.map str)) = true
      rw [Bool.and_eq_true, all_iff h, distinct_iff, hnodup]
      exact ⟨⟨texts, rfl, htexts⟩, hdistinct⟩

section Members

variable {fields : Fields} {name : String} {p : Json → Bool}

theorem required_iff :
    required fields name p = true ↔ ∃ v, fields.get? name = some v ∧ p v = true := by
  cases h : fields.get? name <;> simp [required, h]

theorem optional_iff :
    optional fields name p = true ↔ ∀ v, fields.get? name = some v → p v = true := by
  cases h : fields.get? name <;> simp [optional, h]

theorem only_iff {names : List String} : only fields names = true ↔ fields.names ⊆ names := by
  simp [only, subset_def]

end Members

/-- What the pattern `^\*$|\/.*` finds in a text, wherever it stands: a star that is all of its only
line, or a slash and what follows it on its line. -/
def Found (cs : List Char) : Prop :=
  ∃ front found behind, cs = front ++ found ++ behind ∧
    (front = [] ∧ found = ['*'] ∧ (behind = [] ∨ behind = ['\n']) ∨ ∃ line, found =
      '/' :: line ∧ '\n' ∉ line)

theorem found_iff {cs : List Char} : Found cs ↔ cs = ['*'] ∨ cs = ['*', '\n'] ∨ '/' ∈ cs := by
  constructor
  · rintro ⟨front, found, behind, rfl, ⟨rfl, rfl, rfl | rfl⟩ | ⟨line, rfl, -⟩⟩
    · exact .inl rfl
    · exact .inr (.inl rfl)
    · simp
  · rintro (rfl | rfl | hslash)
    · exact ⟨[], ['*'], [], rfl, .inl ⟨rfl, rfl, .inl rfl⟩⟩
    · exact ⟨[], ['*'], ['\n'], rfl, .inl ⟨rfl, rfl, .inr rfl⟩⟩
    · obtain ⟨front, behind, rfl⟩ := append_of_mem hslash
      exact ⟨front, ['/'], behind, by simp, .inr ⟨[], rfl, nofun⟩⟩

theorem isPath_iff {v : Json} : isPath v = true ↔ ∃ s, v = .str s ∧ Found s.toList := by
  cases v with
  | str s =>
    simp only [str.injEq, exists_eq_left', found_iff]
    simp [isPath, ← String.toList_inj, or_assoc]
  | _ => simp [isPath]

theorem isMethod_iff {v : Json} : isMethod v = true ↔ ∃ s, v = .str s ∧ s ∈ methods := by
  cases v <;> simp [isMethod]

/-- What is asked of a route. -/
structure Route.Proper (r : Route) : Prop where
  names : r.fields.names ⊆ ["method", "path", "type"]
  methods : r.method.list.Nodup ∧ ∀ method ∈ r.method.list, method ∈ methods
  paths : r.path.list.Nodup ∧ ∀ path ∈ r.path.list, Found path.toList
  kind : ∀ v, r.fields.get? "type" = some v → isText v = true

theorem isRoute_iff {v : Json} : isRoute v = true ↔ ∃ r : Route, v = r.json ∧ r.Proper := by
  constructor
  · intro h
    cases v with
    | obj fields =>
      simp only [isRoute, Bool.and_eq_true, only_iff, required_iff, optional_iff,
        oneOrMany_iff @isMethod_iff, oneOrMany_iff @isPath_iff] at h
      obtain ⟨⟨⟨hnames, _, hmethod, method, rfl, hmethods⟩, _, hpath, path, rfl, hpaths⟩, hkind⟩ :=
          h
      exact ⟨⟨fields, path, method, hpath, hmethod⟩, rfl, ⟨hnames, hmethods, hpaths, hkind⟩⟩
    | _ => cases h
  · rintro ⟨r, rfl, hr⟩
    simp only [Route.json, isRoute, Bool.and_eq_true, only_iff, required_iff, optional_iff,
      oneOrMany_iff @isMethod_iff, oneOrMany_iff @isPath_iff]
    exact ⟨⟨⟨hr.names, _, r.method_eq, _, rfl, hr.methods⟩, _, r.path_eq, _, rfl, hr.paths⟩,
      hr.kind⟩

/-- What is asked of an entry; neither of its members must be there. -/
structure Accepted (entry : Fields) : Prop where
  names : entry.names ⊆ ["routes", "dependencies"]
  routes : ∀ v, entry.get? "routes" = some v → ∃ routes : List Route, v =
    .arr (routes.map Route.json) ∧ ∀ r ∈ routes, r.Proper
  dependencies : ∀ v, entry.get? "dependencies" = some v → listOf isDependency v = true

theorem isEntry_iff {v : Json} : isEntry v = true ↔ ∃ entry, v = .obj entry ∧ Accepted entry := by
  cases v with
  | obj entry =>
    simp only [isEntry, Bool.and_eq_true, only_iff, optional_iff, listOf_iff @isRoute_iff,
      obj.injEq, exists_eq_left']
    exact ⟨fun h => ⟨h.1.1, h.1.2, h.2⟩, fun h => ⟨⟨h.names, h.routes⟩, h.dependencies⟩⟩
  | _ => simp [isEntry]

/-- A path that passes although it is no star and does not begin with a slash. -/
def Astray (path : String) : Prop :=
  path = "*\n" ∨ path.toList.head? ≠ some '/' ∧ '/' ∈ path.toList

theorem astray_iff {path : String} (h : Found path.toList) :
    Astray path ↔ ¬ (path = "*" ∨ path.toList.head? = some '/') := by
  unfold Astray
  simp only [← String.toList_inj]
  rcases found_iff.mp h with hstar | hline | hslash
  · simp [hstar]
  · simp [hline]
  · have hne : path.toList ≠ ['*'] ∧ path.toList ≠ ['*', '\n'] := by
      constructor <;> (intro heq; rw [heq] at hslash; simp at hslash)
    simp [hslash, hne]

/-- **What passes as a configuration.** Every part that an entry has must be as it should, and
nothing else is asked. So an entry can be expanded unless it has no routes, and a path is a star or
begins with a slash unless it is astray. -/
theorem readConfig_usable_iff (text : String) (config : Json) :
    (readConfig text = .ok config ↔ Json.parse text = .ok config ∧ ∃ entries :
      List Fields, config = .arr (entries.map .obj) ∧ ∀ entry ∈ entries, Accepted entry) ∧
    ∀ entry, Accepted entry →
      entry.get? "routes" = none ∧ expand (.obj entry) = .error (.missingKey (.str "routes")) ∨
      ∃ routes : List Route, entry.get? "routes" = some (.arr (routes.map Route.json)) ∧
        (∃ single, expand (.obj entry) = .ok single) ∧
        ∀ r ∈ routes, ∀ path ∈ r.path.list,
          Found path.toList ∧ ((path = "*" ∨ path.toList.head? = some '/') ↔ ¬ Astray path) := by
  constructor
  · unfold readConfig
    rw [bind_eq_ok, ← listOf_iff @isEntry_iff]
    grind [pure_eq_ok]
  intro entry hentry
  cases hroutes : entry.get? "routes" with
  | none =>
    refine .inl ⟨rfl, ?_⟩
    simp [expand, item, hroutes]
  | some v =>
    obtain ⟨routes, rfl, hproper⟩ := hentry.routes v hroutes
    refine .inr ⟨routes, rfl, ⟨_, expand_eq (item_of_get? hroutes)⟩, fun r hr path hpath => ?_⟩
    have hfound := (hproper r hr).paths.2 path hpath
    exact ⟨hfound, by rw [astray_iff hfound, not_not]⟩

/-- An entry whose path begins with no slash. -/
def loose : Fields :=
  [("routes", .arr [.obj [("method", .str "GET"), ("path", .str "a/b")]])]

/-- It passes, and so does an entry without routes, which cannot be expanded. -/
theorem readConfig_usable_iff_loose :
    readConfig "[\x7b\"routes\": [\x7b\"method\": \"GET\", \"path\": \"a/b\"\x7d]\x7d, \x7b\x7d]" =
      .ok (.arr [.obj loose, .obj []]) ∧
    Astray "a/b" ∧ expand (.obj []) = .error (.missingKey (.str "routes")) := by
  have hempty : Accepted [] := ⟨nofun, nofun, nofun⟩
  obtain ⟨entry, heq, hloose⟩ := isEntry_iff.mp (show isEntry (.obj loose) = true by decide)
  cases heq
  refine ⟨(readConfig_usable_iff _ _).1.mpr
    ⟨by decide +kernel, [loose, []], rfl, by simp [hloose, hempty]⟩, .inr (by decide), ?_⟩
  obtain ⟨-, herror⟩ | ⟨routes, hroutes, -⟩ := (readConfig_usable_iff "" .null).2 [] hempty
  · exact herror
  · cases hroutes

end StacCatalog.Routes
