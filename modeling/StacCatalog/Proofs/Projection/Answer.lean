import Mathlib.Logic.Basic
import StacCatalog.Library.Plain
import StacCatalog.Proofs.Projection.Excluding

/-!
# The fields of an item that a request gets
-/

namespace StacCatalog

open List Json Selection

variable {value : Json}

namespace Projection

variable {library : Library} {p q : Projection} {item : Fields} {path : List String}

/-- Whether an included path can be compared with a path; without included paths all are wanted. -/
def Wants (p : Projection) (path : List String) : Prop :=
  p.included = [] ∨ ∃ included ∈ p.included, Comparable (names included) path

/-- Whether something at or below a path of an item is wanted and not excluded. -/
def Gets (p : Projection) (item : Fields) (path : List String) : Prop :=
  ∃ longer, path <+: longer ∧ (obj item).Holds longer ∧ p.Wants longer ∧
    ∀ excluded ∈ p.excluded, ¬ Comparable (names excluded) longer

/-- Whether a member of an item is wanted. -/
def Finds (p : Projection) (item : Fields) : Prop :=
  ∃ name, item.has name = true ∧ p.Wants [name]

/-- Two outcomes of a projection: the same fault, or answers that are the same nested map. -/
inductive SameAnswer : Outcome (Fields × Fields) → Outcome (Fields × Fields) → Prop
  | answered {result result' : Fields} (after after' : Fields)
      (same : Fields.SameMap result result') :
      SameAnswer (.ok (result, after)) (.ok (result', after'))
  | failed (fault : Fault) : SameAnswer (.error fault) (.error fault)

/-! ### What is collected -/

theorem names_ne_nil (path : String) : names path ≠ [] := by
  simp [names, splitOn_ne_nil]

theorem Wants.of_prefix {longer : List String} (h : p.Wants longer) (hpath : path <+: longer) :
    p.Wants path := by
  rcases h with h | ⟨included, hincluded, hcomparable⟩
  · exact .inl h
  · exact .inr ⟨included, hincluded, hcomparable.of_prefix hpath⟩

theorem mem_paths {texts : List String} :
    path ∈ texts.eraseDups.map names ↔ ∃ text ∈ texts, names text = path := by
  simp

theorem ne_nil_of_mem_paths {texts : List String} :
    ∀ path ∈ texts.eraseDups.map names, path ≠ [] := by
  intro path hpath
  obtain ⟨text, -, rfl⟩ := mem_paths.mp hpath
  exact names_ne_nil text

theorem selects_collect (p : Projection) (hitem : (obj item).WellFormed) :
    Selection.Selects (.fresh (collect p.included item)) (.obj item)
      fun path => path = [] ∨ p.Wants path := by
  have hnone : p.included.eraseDups.map names = [] ↔ p.included = [] := by
    simp [eq_nil_iff_forall_not_mem]
  refine (selects_gather hitem ne_nil_of_mem_paths).congr fun path _ => ?_
  simp only [Wants, hnone, mem_paths, exists_exists_and_eq_and]

theorem isEmpty_collect_eq_false_iff (p : Projection) (hitem : (obj item).WellFormed) :
    (collect p.included item).isEmpty = false ↔ p.Finds item := by
  rw [← Selection.isEmpty_entriesJson, Selection.isEmpty_eq_false_iff]
  refine exists_congr fun name => ?_
  have hspots := (selects_collect p hitem).spot?_eq_some_iff [name]
  simp only [← holds_singleton, Json.Holds, Option.isSome_iff_exists,
    reduceCtorEq, false_or] at hspots ⊢
  constructor
  · intro h
    obtain ⟨here, hhere⟩ := h
    obtain ⟨hwants, hitem⟩ := (hspots here).mp hhere
    exact ⟨⟨here, hitem⟩, hwants⟩
  · intro h
    obtain ⟨⟨here, hhere⟩, hwants⟩ := h
    exact ⟨here, (hspots here).mpr ⟨hwants, hhere⟩⟩

/-! ### What is left of it -/

/-- **The rule.** What stands at a path of the answer is what stands there in the item, if something
at or below it is wanted and not excluded. -/
theorem spot?_finish (p : Projection) (hitem : (obj item).WellFormed) (hpath : path ≠ [])
    (here : Json) :
    (obj (finish (collect p.included item) item p.excluded).1).spot? path = some here ↔
      (obj item).spot? path = some here ∧ p.Gets item path := by
  have hcollected := (selects_collect p hitem).spot?_eq_some_iff
  rw [toJson] at hcollected
  have hholds : ∀ {longer}, longer ≠ [] →
      ((obj (entriesJson (collect p.included item))).Holds longer ↔
        p.Wants longer ∧ (obj item).Holds longer) := by
    intro longer hlonger
    simp only [Json.Holds, Option.isSome_iff_exists, hcollected, hlonger, false_or, exists_and_left]
  show (obj (entriesJson (exclude _ item _).1)).spot? path = some here ↔ _
  rw [entriesJson_exclude, spot?_foldl_excludeShared ne_nil_of_mem_paths hpath, hcollected]
  simp only [hpath, false_or]
  constructor
  · rintro ⟨⟨-, hhere⟩, longer, hlonger, hthere, hfree⟩
    obtain ⟨hwants, hthere⟩ := (hholds (hlonger.ne_nil hpath)).mp hthere
    exact ⟨hhere, longer, hlonger, hthere, hwants, fun e he => hfree (names e)
      (mem_paths.mpr ⟨e, he, rfl⟩)⟩
  · rintro ⟨hhere, longer, hlonger, hthere, hwants, hfree⟩
    have hcollected := (hholds (hlonger.ne_nil hpath)).mpr ⟨hwants, hthere⟩
    refine ⟨⟨hwants.of_prefix hlonger, hhere⟩, longer, hlonger, hcollected, fun e he => ?_⟩
    obtain ⟨text, htext, rfl⟩ := mem_paths.mp he
    exact hfree text htext

theorem gets_iff_of_not_obj (hvalue : (obj item).at? path = some value)
    (hobj : value.isObj = false) :
    p.Gets item path ↔
      p.Wants path ∧ ∀ excluded ∈ p.excluded, ¬ Comparable (names excluded) path := by
  constructor
  · rintro ⟨longer, hlonger, hholds, hwants, hfree⟩
    obtain rfl := eq_of_prefix_of_not_obj hvalue hobj hlonger hholds
    exact ⟨hwants, hfree⟩
  · rintro ⟨hwants, hfree⟩
    exact ⟨path, prefix_rfl, holds_of_spot? ((spot?_eq_some_iff hobj).mpr hvalue), hwants, hfree⟩

theorem gets_congr (hincluded : ∀ path, path ∈ p.included ↔ path ∈ q.included)
    (hexcluded : ∀ path, path ∈ p.excluded ↔ path ∈ q.excluded) :
    p.Gets item path ↔ q.Gets item path := by
  simp only [Gets, Wants, eq_nil_iff_forall_not_mem, hincluded, hexcluded]

theorem finds_congr (hincluded : ∀ path, path ∈ p.included ↔ path ∈ q.included) :
    p.Finds item ↔ q.Finds item := by
  simp only [Finds, Wants, eq_nil_iff_forall_not_mem, hincluded]

theorem finds_of_root (hsome : item ≠ [])
    (hroot : p.included = [] ∨
      ∃ included ∈ p.included, ∃ root, (names included).head? = some root ∧ item.has root = true) :
    p.Finds item := by
  rcases hroot with hnone | ⟨included, hmem, root, hhead, hhas⟩
  · obtain ⟨name, hname⟩ := Selection.isEmpty_eq_false_iff.mp (isEmpty_eq_false_iff.mpr hsome)
    exact ⟨name, hname, .inl hnone⟩
  · refine ⟨root, hhas, .inr ⟨included, hmem, ?_⟩⟩
    obtain ⟨rest, hnames⟩ := head?_eq_some_iff.mp hhead
    simp [hnames]

theorem ne_nil_of_not_obj {fields : Fields} (hobj : value.isObj = false)
    (h : (obj fields).at? path = some value) : path ≠ [] := by
  rintro rfl
  cases h
  cases hobj

/-! ### Answers -/

/-- What stands in an answer, below its top, by the rule. -/
def Follows (p : Projection) (item result : Fields) : Prop :=
  ∀ path here, path ≠ [] →
    ((obj result).spot? path = some here ↔ (obj item).spot? path = some here ∧ p.Gets item path)

theorem given_of_or (h : p.included ≠ [] ∨ p.excluded ≠ []) :
    ¬ (p.included.isEmpty && p.excluded.isEmpty) = true := by
  simpa [or_iff_not_imp_left] using h

/-- A request that names paths is answered from what is collected. -/
theorem apply_eq (hgiven : p.included ≠ [] ∨ p.excluded ≠ []) : p.apply item =
      if (collect p.included item).isEmpty then (bare item).map (·, item)
      else .ok (finish (collect p.included item) item p.excluded) := by
  rw [apply, if_neg (given_of_or hgiven)]
  cases bare item <;> rfl

/-- A request for something of an item that is there is answered by the rule, if a document can be
built. -/
theorem answer_of_finds (library : Library) (hitem : (obj item).WellFormed)
    (hgiven : p.included ≠ [] ∨ p.excluded ≠ []) (hfinds : p.Finds item) :
    ∃ result after, p.apply item = .ok (result, after) ∧ p.Follows item result ∧
      answer library (ofStrings p.included) (ofStrings p.excluded) item =
        (library.document result).map (·, after) := by
  have hcollected := ne_true_of_eq_false ((isEmpty_collect_eq_false_iff p hitem).mpr hfinds)
  refine ⟨_, _, (apply_eq hgiven).trans (if_neg hcollected), fun path here hpath => ?_, ?_⟩
  · exact spot?_finish p hitem hpath here
  · exact (answer_ofStrings library p item hgiven).trans (if_neg hcollected)

/-- A request that names no paths is answered by the item. -/
theorem answer_nil (library : Library) (item : Fields) :
    answer library (ofStrings []) (ofStrings []) item = .ok (item, item) :=
  rfl

/-- A request for nothing of an item is answered by its id and its collection. -/
theorem answer_of_not_finds (library : Library) (hitem : (obj item).WellFormed)
    (hgiven : p.included ≠ [] ∨ p.excluded ≠ []) (hfinds : ¬ p.Finds item) :
    answer library (ofStrings p.included) (ofStrings p.excluded) item =
      (bare item).map (·, item) := by
  rw [← isEmpty_collect_eq_false_iff p hitem, Bool.not_eq_false] at hfinds
  rw [answer_ofStrings library p item hgiven, if_pos hfinds]

/-- The item itself follows the rule of a request that names no paths. -/
theorem follows_self (hnone : p.included = [] ∧ p.excluded = []) (item : Fields) :
    p.Follows item item := by
  intro path here _
  refine (and_iff_left_of_imp fun hhere => ?_).symm
  exact ⟨path, prefix_rfl, holds_of_spot? hhere, .inl hnone.1, by simp [hnone.2]⟩

/-- **Projection, with exclusion winning.** Of an item a member of which is included, an answer has
the values that are no objects exactly at the paths that can be compared with an included one, if
any are given, and with no excluded one, and it has no other values. The lists of a projection are
the orders in which the included and the excluded paths are visited. -/
theorem answer_at_iff (library : Library) (p : Projection) {item : Fields}
    (hitem : (Json.obj item).WellFormed) (hsome : item ≠ [])
    (hgiven : p.included ≠ [] ∨ p.excluded ≠ [])
    (hroot : p.included = [] ∨
      ∃ included ∈ p.included, ∃ root, (names included).head? = some root ∧ item.has root = true) :
    ∃ result after, p.apply item = .ok (result, after) ∧
      (library.builds result = true →
        answer library (Json.ofStrings p.included) (Json.ofStrings p.excluded) item =
          .ok (result, after)) ∧
      (∀ path value, value.isObj = false → (Json.obj item).at? path = some value →
        ((Json.obj result).at? path = some value ↔
          (p.included = [] ∨ ∃ included ∈ p.included, Comparable (names included) path) ∧
          ∀ excluded ∈ p.excluded, ¬ Comparable (names excluded) path)) ∧
      ∀ path value, value.isObj = false → (Json.obj result).at? path = some value →
        (Json.obj item).at? path = some value := by
  obtain ⟨result, after, happly, hfollows, hanswer⟩ :=
    answer_of_finds library hitem hgiven (finds_of_root hsome hroot)
  refine ⟨result, after, happly, fun hbuilds => ?_, fun path value hobj hvalue => ?_,
    fun path value hobj hvalue => ?_⟩
  · rw [hanswer, Library.document, if_pos hbuilds]
    rfl
  · have hspot := hfollows path value (ne_nil_of_not_obj hobj hvalue)
    rw [Json.spot?_eq_some_iff hobj, Json.spot?_eq_some_iff hobj,
      gets_iff_of_not_obj hvalue hobj] at hspot
    exact hspot.trans (and_iff_right hvalue)
  · have hspot := hfollows path value (ne_nil_of_not_obj hobj hvalue)
    rw [Json.spot?_eq_some_iff hobj, Json.spot?_eq_some_iff hobj] at hspot
    exact (hspot.mp hvalue).1

def nested : Fields :=
  [("id", .str "x"), ("properties", .obj [("a", .int 1), ("b", .obj [("c", .int 2), ("d", .int 3)]),
    ("e", .obj [])])]

theorem wellFormed_nested : (obj nested).WellFormed := by
  simp [nested, Json.WellFormed, Json.WellFormedFields]

/-- The member `b` is included whole and in part, and one value in it is excluded. -/
def overlapping : Projection :=
    ⟨["properties.b.c", "properties.b", "id.z"], ["properties.b.c", "properties.e"]⟩

theorem answer_at_iff_overlapping :
    ∃ result after, overlapping.apply nested = .ok (result, after) ∧
      (Json.obj result).at? ["id"] = some (.str "x") ∧
      (Json.obj result).at? ["properties", "b", "d"] = some (.int 3) ∧
      (Json.obj result).at? ["properties", "b", "c"] ≠ some (.int 2) ∧
      (Json.obj result).at? ["properties", "a"] ≠ some (.int 1) := by
  obtain ⟨result, after, happly, -, hvalues, -⟩ :=
      answer_at_iff .plain overlapping wellFormed_nested (by decide) (by decide)
    (Or.inr ⟨"properties.b", by decide, "properties", by decide +kernel, by decide⟩)
  have hb : names "properties.b" = ["properties", "b"] := by decide +kernel
  have hc : names "properties.b.c" = ["properties", "b", "c"] := by decide +kernel
  have he : names "properties.e" = ["properties", "e"] := by decide +kernel
  have hz : names "id.z" = ["id", "z"] := by decide +kernel
  refine ⟨result, after, happly, ?_, ?_, ?_, ?_⟩
  · refine (hvalues ["id"] (.str "x") rfl rfl).mpr ?_
    simp [overlapping, hb, hc, he, hz]
  · refine (hvalues ["properties", "b", "d"] (.int 3) rfl rfl).mpr ?_
    simp [overlapping, hb, hc, he, hz]
  · rw [ne_eq, hvalues ["properties", "b", "c"] (.int 2) rfl rfl]
    simp [overlapping, hb, hc, he, hz]
  · rw [ne_eq, hvalues ["properties", "a"] (.int 1) rfl rfl]
    simp [overlapping, hb, hc, he, hz]

/-- Answers that are the same map are refused alike as documents. -/
theorem sameAnswer_document {result result' : Fields} (h : Fields.SameMap result result')
    (after after' : Fields) :
    SameAnswer ((library.document result).map (·, after))
      ((library.document result').map (·, after')) := by
  have hhas : result.has = result'.has := by
    funext name
    rw [Bool.eq_iff_iff, ← holds_singleton, ← holds_singleton, Json.Holds, Json.Holds, h]
  unfold Library.document Library.builds
  rw [hhas]
  split
  · exact .answered after after' h
  · exact .failed _

/-- The rule is the same for the same sets of paths, so answers by it are the same map. -/
theorem sameMap_of_follows {result result' : Fields}
    (hincluded : ∀ path, path ∈ p.included ↔ path ∈ q.included)
    (hexcluded : ∀ path, path ∈ p.excluded ↔ path ∈ q.excluded) (h : p.Follows item result)
    (h' : q.Follows item result') : Fields.SameMap result result' := by
  intro path
  cases path with
  | nil => simp [outline]
  | cons name rest =>
    refine Option.ext fun here => ?_
    rw [h _ here (cons_ne_nil _ _), h' _ here (cons_ne_nil _ _), gets_congr hincluded hexcluded]

/-- **The order of paths does not matter.** Two requests with the same included and the same
excluded paths, in any orders, are answered by the same nested map, with the same empty objects in
it, or fail alike. Where something of the item is included, the map is the one that the rule gives.
-/
theorem answer_of_same_paths (library : Library) (p q : Projection) {item : Fields}
    (hitem : (Json.obj item).WellFormed) (hincluded : ∀ path, path ∈ p.included ↔ path ∈ q.included)
    (hexcluded : ∀ path, path ∈ p.excluded ↔ path ∈ q.excluded) :
    SameAnswer (answer library (Json.ofStrings p.included) (Json.ofStrings p.excluded) item)
      (answer library (Json.ofStrings q.included) (Json.ofStrings q.excluded) item) ∧
    ∀ result after,
      answer library (Json.ofStrings p.included) (Json.ofStrings p.excluded) item =
        .ok (result, after) →
      p.Finds item → p.Follows item result := by
  by_cases hnone : p.included = [] ∧ p.excluded = []
  · have hnone' : q.included = [] ∧ q.excluded = [] := by
      simpa only [List.eq_nil_iff_forall_not_mem, hincluded, hexcluded] using hnone
    rw [hnone.1, hnone.2, hnone'.1, hnone'.2, answer_nil]
    refine ⟨.answered item item fun path => rfl, fun result after h _ => ?_⟩
    cases h
    exact follows_self hnone item
  · have hgiven : p.included ≠ [] ∨ p.excluded ≠ [] := not_and_or.mp hnone
    have hgiven' : q.included ≠ [] ∨ q.excluded ≠ [] := by
      simpa only [ne_eq, List.eq_nil_iff_forall_not_mem, hincluded, hexcluded] using hgiven
    by_cases hfinds : p.Finds item
    · obtain ⟨result, after, -, hfollows, hanswer⟩ := answer_of_finds library hitem hgiven hfinds
      obtain ⟨result', after', -, hfollows', hanswer'⟩ :=
        answer_of_finds library hitem hgiven' ((finds_congr hincluded).mp hfinds)
      rw [hanswer, hanswer']
      refine ⟨sameAnswer_document (sameMap_of_follows hincluded hexcluded hfollows hfollows')
        after after', ?_⟩
      intro given _ h _
      unfold Library.document at h
      split at h
      · cases h
        exact hfollows
      · cases h
    · rw [answer_of_not_finds library hitem hgiven hfinds,
        answer_of_not_finds library hitem hgiven' (mt (finds_congr hincluded).mpr hfinds)]
      refine ⟨?_, fun _ _ _ h => absurd h hfinds⟩
      cases bare item with
      | error fault => exact .failed fault
      | ok result => exact .answered item item fun path => rfl

theorem answer_of_same_paths_reverse :
    SameAnswer (answer .plain (Json.ofStrings overlapping.included)
        (Json.ofStrings overlapping.excluded) nested)
      (answer .plain (Json.ofStrings overlapping.included.reverse)
        (Json.ofStrings overlapping.excluded.reverse) nested) :=
  (answer_of_same_paths .plain overlapping ⟨overlapping.included.reverse,
    overlapping.excluded.reverse⟩ wellFormed_nested
    (fun _ => List.mem_reverse.symm) (fun _ => List.mem_reverse.symm)).1

end Projection

end StacCatalog
