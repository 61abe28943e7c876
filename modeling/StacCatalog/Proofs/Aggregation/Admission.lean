import StacCatalog.Proofs.Search.Selection
import StacCatalog.Proofs.Url.Join
import Mathlib.Tactic.MkIffOfInductiveProp

/-!
# Which aggregations are run
-/

namespace StacCatalog

open Program AggregateApi Aggregation Json List

variable {σ : Type}

/-! ### Paths -/

theorem Json.occursIn_iff {part whole : List Char} :
    occursIn part whole = true ↔ part <:+: whole := by
  induction whole with
  | nil => simp [occursIn]
  | cons c rest ih => rw [occursIn, Bool.or_eq_true, ih, infix_cons_iff, isPrefixOf_iff_prefix]

/-- The segments of the path at which items are aggregated: all of them, or those of one collection.
-/
def segmentsOf : Option String → List String
  | none => ["aggregate"]
  | some id => ["collections", id, "aggregate"]

/-- The path of a request to aggregate, behind the root at which the catalogue is served. -/
def route (root : List String) (named : Option String) : String :=
  String.ofList (Url.pathOf ((root ++ segmentsOf named).map String.toList))

def pathNamed (path : String) : Outcome Json :=
  if occursIn "collections".toList path.toList then pathCollection path else .ok .null

/-- A value that names a collection, or none. -/
def Names (value : Json) : Option String → Prop
  | none => value.truthy = false
  | some id => value = .str id ∧ id ≠ ""

section Route

variable {root : List String} {named : Option String}

theorem occursIn_route (root : List String) (id : String) :
    occursIn "collections".toList (route root (some id)).toList = true := by
  rw [occursIn_iff, route, String.toList_ofList]
  refine ⟨Url.pathOf (root.map String.toList) ++
    ['/'], Url.pathOf [id.toList, "aggregate".toList], ?_⟩
  simp [segmentsOf, Url.pathOf]

theorem pathCollection_route {first second : String} {rest : List String}
    (hsegments : root ++ segmentsOf named = first :: second :: rest)
    (hslash : ∀ segment ∈ root ++ segmentsOf named, '/' ∉ segment.toList) :
    pathCollection (route root named) = .ok (.str second) := by
  rw [pathCollection, route, String.toList_ofList, Url.splitOn_pathOf (forall_mem_map.mpr hslash),
    hsegments]
  simp

theorem pathNamed_route (hslash : ∀ id ∈ named, '/' ∉ id.toList) :
    pathNamed (route [] named) = .ok (named.elim .null .str) := by
  cases named with
  | none => decide +kernel
  | some id =>
    rw [pathNamed, if_pos (occursIn_route [] id)]
    exact pathCollection_route rfl (by simpa [segmentsOf] using hslash id rfl)

end Route

/-! ### Precisions -/

/-- A check that passes if something holds, and refuses the request if it does not. -/
structure Checks {α : Type} (o : Outcome α) (P : Prop) : Prop where
  of_ok : ∀ a, o = .ok a → P
  of_error : ∀ fault, o = .error fault → ¬ P ∧ ∃ text, fault = .http 400 text

namespace Checks

variable {α β : Type} {P Q : Prop} {o : Outcome α}

theorem ok (h : P) (a : α) : Checks (.ok a) P :=
  ⟨fun _ _ => h, nofun⟩

theorem ite [Decidable P] (a : α) (text : String) :
    Checks (if P then .ok a else .error (.http 400 text)) P := by
  by_cases h : P
  · rw [if_pos h]
    exact .ok h a
  · rw [if_neg h]
    exact ⟨nofun, fun _ hfault => ⟨h, text, (Except.error.inj hfault).symm⟩⟩

theorem bind {f : α → Outcome β} (h : Checks o P) (hf : ∀ a, Checks (f a) Q) :
    Checks (o >>= f) (P ∧ Q) := by
  cases o with
  | error fault =>
    exact ⟨nofun, fun _ hfault => (h.of_error _ (Except.error.inj hfault ▸ rfl)).imp_left
      fun hno hboth => hno hboth.1⟩
  | ok a => exact ⟨fun b hb => ⟨h.of_ok a rfl, (hf a).of_ok b hb⟩, fun _ hfault =>
      ((hf a).of_error _ hfault).imp_left fun hno hboth => hno hboth.2⟩

end Checks

/-- A precision that is left out, or lies between two bounds. -/
def Within (precision : Option Int) (least greatest : Int) : Prop :=
  ∀ n ∈ precision, least ≤ n ∧ n ≤ greatest

theorem checks_precision (value : Option Int) (least greatest : Int) :
    Checks (precision (value.elim .null .int) (.int least) (.int greatest))
      (Within value least greatest) := by
  cases value with
  | none => exact .ok nofun _
  | some n =>
    have hvalue : precision (.int n) (.int least) (.int greatest) =
        if least ≤ n ∧ n ≤ greatest then .ok (.int n)
          else .error (.http 400
              ("Invalid precision value. Must be between " ++ (int least).display ++ " and " ++
                (int greatest).display)) := by
      simp only [precision, isNull, less_int, greater_int, Outcome.ok_bind]
      by_cases hleast : n < least <;> by_cases hgreatest :
        greatest < n <;> simp [hleast, hgreatest, not_lt.mp]
    have hwithin : Within (some n) least greatest ↔ least ≤ n ∧ n ≤ greatest := by simp [Within]
    rw [Option.elim_some, hvalue, hwithin]
    exact .ite _ _

theorem checks_interval (value : Option String) :
    Checks (interval (value.elim .null .str)) (∀ name ∈ value, name ∈ intervals) := by
  cases value with
  | none => exact .ok nofun _
  | some name =>
    have hany : (intervals.any fun other => str name == .str other) = true ↔ name ∈ intervals := by
      simp
    have hname : (∀ other ∈ some name, other ∈ intervals) ↔
        (intervals.any fun other => str name == .str other) = true := by simp [hany]
    rw [hname]
    exact .ite _ _

/-- A request with precisions and an interval, and otherwise as another. -/
def refined (request : AggregateRequest) (precision : Aggregation.Grid → Option Int)
    (interval : Option String) : AggregateRequest :=
  { request with
    precision := fun g => (precision g).elim .null .int, interval := interval.elim .null .str }

/-- The precisions lie in their ranges, and the interval is one by which documents can be counted.
-/
@[mk_iff]
structure Fine (precision : Aggregation.Grid → Option Int) (interval : Option String) : Prop where
  centroidGeohash : Within (precision .centroidGeohash) 1 12
  centroidGeohex : Within (precision .centroidGeohex) 0 15
  centroidGeotile : Within (precision .centroidGeotile) 0 29
  geometryGeohash : Within (precision .geometryGeohash) 1 12
  geometryGeotile : Within (precision .geometryGeotile) 0 29
  interval : ∀ name ∈ interval, name ∈ ["year", "quarter", "month", "week", "day",
    "hour", "minute", "second"]

theorem checks_fineness (request : AggregateRequest) (precision : Aggregation.Grid → Option Int)
    (interval : Option String) :
    Checks (fineness (refined request precision interval)) (Fine precision interval) := by
  rw [fine_iff, ← and_true (∀ name ∈ interval, _)]
  exact (checks_precision _ _ _).bind fun _ => (checks_precision _ _ _).bind fun _ =>
    (checks_precision _ _ _).bind fun _ =>
    (checks_precision _ _ _).bind fun _ => (checks_precision _ _ _).bind fun _ =>
      (checks_interval _).bind fun _ => .ok trivial _

namespace Criteria

theorem exists_offerLinks {base : String} (hbase : Url.Base base) (collection : Json) :
    ∃ links, offerLinks base collection = .ok links := by
  obtain ⟨url, target, hurl, htarget⟩ :=
      hbase.exists_join_inside collection.display "aggregations" (by decide)
  unfold offerLinks
  rw [hbase.join_word "aggregations" (by decide), hurl]
  split
  · exact ⟨_, rfl⟩
  · rw [Outcome.ok_bind, htarget]
    exact ⟨_, rfl⟩

end Criteria

/-! ### Requests -/

/-- A request to aggregate, by its parts. -/
structure Enquiry where
  criteria : Criteria
  asked : Option (List String)
  precision : Aggregation.Grid → Option Int
  interval : Option String

namespace Enquiry

open Criteria

variable (e : Enquiry) (named : Option String)

def names : List String :=
  e.asked.getD []

/-- The request, apart from its precisions and its interval. -/
def plain : AggregateRequest :=
  { aggregateOf e.criteria with aggregations := e.asked.elim .null ofStrings }

def request : AggregateRequest :=
  refined e.plain e.precision e.interval

/-- The collections that are asked about: the one that the path names, and those of the request. -/
def scope : List String :=
  named.toList ++ e.criteria.scope

/-- All that is asked for is there, if the collections are. -/
@[mk_iff]
structure Admissible (answer : Answering σ) (ctx : Context) (s : σ) : Prop where
  asked : e.names ≠ []
  single : named = none ∨ e.criteria.scope = []
  covered : Covered answer ctx s e.names (e.scope named)
  fine : Fine e.precision e.interval

variable {e named} {answer : Answering σ} {ctx : Context} {s : σ}

/-- A request is stopped: a collection is missing, or something that is asked for is not there. -/
def Stopped (e : Enquiry) (named : Option String) (answer : Answering σ) (ctx : Context)
    (s : σ) (fault : Fault) : Prop :=
  (∃ id ∈ e.scope named, ¬ Stored answer ctx s id ∧ fault = .notFound (.parent (.str id))) ∨
    ¬ e.Admissible named answer ctx s ∧ ∃ text, fault = .http 400 text

theorem statedBy_plain (hasked : e.names ≠ []) : e.criteria.StatedBy e.names e.plain where
  ids := rfl
  collections := rfl
  datetime := rfl
  bbox := rfl
  intersects := rfl
  filter := rfl
  aggregations := by
    cases h : e.asked with
    | none => exact absurd (by rw [names, h]; rfl) hasked
    | some asked => simp [plain, names, h]
  asked_nonempty := hasked
  fineness := ⟨_, rfl⟩

/-- The clauses of a search in some collections, with those of the geometry and of the filter once
these are read. -/
def clausesIn (e : Enquiry) (ids : List String) (shape : List Clause) (backend : Backend)
    (query : Option Query) : List Clause :=
  e.criteria.idsClauses ++ e.criteria.timeClauses ++ e.criteria.boxClauses ++ shape ++
    inScope ids ++ filterClauses backend query

/-- What a request that is run sends. -/
def Sent (e : Enquiry) (named : Option String) (answer : Answering σ) (ctx : Context)
    (s : σ) (query : Option Query) (sent : Aggregates) : Prop :=
  ∃ shape, e.criteria.shapeClauses ctx.library = .ok shape ∧
    (e.Admissible named answer ctx s ∧ ∀ id ∈ e.scope named, Stored answer ctx s id) ∧
    sent.search.clauses = e.clausesIn (e.scope named) shape ctx.backend query

/-- A request that is not run is stopped, or its geometry cannot be read. -/
def Ended (e : Enquiry) (named : Option String) (answer : Answering σ) (ctx : Context)
    (s : σ) (fault : Fault) : Prop :=
  e.Stopped named answer ctx s fault ∨ e.criteria.shapeClauses ctx.library = .error fault

/-- **A request is run or ended**, and is run only if all that it asks for is there. -/
theorem reaches_request (hanswer : Steady answer) (hdescribed : ∀ id, Described answer ctx s id)
    {r : Request} (hbase : Url.Base r.baseUrl) (hasked : e.names ≠ []) {searched : Json}
    {indices : String} (hindices : ctx.naming.indices searched = .ok indices)
    {query : Option Query}
    (hquery : Searching.translated answer ctx s (e.criteria.filter.elim .null .obj) = .ok query)
    (collection : Json) :
    Reaches answer (steps ctx e.request collection searched r) s (e.Sent none answer ctx s query)
      (e.Ended none answer ctx s) := by
  have hready : Ready answer ctx s r.baseUrl e.criteria.scope :=
    ⟨fun _ => exists_offerLinks hbase _, fun id _ => ⟨hdescribed id, exists_offerLinks hbase _⟩⟩
  have hcheck := checks_fineness e.plain e.precision e.interval
  rcases reaches_steps hanswer (statedBy_plain hasked) _ _ hindices collection r with
    ⟨sent, hsent, shape, query', hshape, hquery', hclauses, ⟨offered, hpasses⟩, f, hf⟩ |
      ⟨fault, hfault, hwhy⟩
  · cases hquery.symm.trans hquery'
    have hadmissible : e.Admissible none answer ctx s :=
      ⟨hasked, .inl rfl, hpasses.covered, hcheck.of_ok f hf⟩
    exact .inl ⟨sent, hsent, shape, hshape, ⟨hadmissible, hpasses.stored⟩, hclauses⟩
  · refine .inr ⟨fault, hfault, ?_⟩
    rcases hwhy with hunread | ⟨-, hstops | ⟨cause, hcause, -⟩ | hfine⟩
    · exact .inr hunread
    · exact .inl ((hstops hready).imp_right (And.imp_left fun hno h => hno h.covered))
    · cases hquery.symm.trans hcause
    · exact .inl (.inr ((hcheck.of_error _ hfine).imp_left fun hno h => hno h.fine))

def about (e : Enquiry) (id : String) : Enquiry :=
  { e with criteria := { e.criteria with collections := some [id] } }

theorem scope_about (hbody : e.criteria.scope = []) (id : String) :
    (e.about id).scope none = e.scope (some id) := by
  unfold scope
  rw [hbody]
  rfl

theorem admissible_about (hbody : e.criteria.scope = []) (id : String) :
    (e.about id).Admissible none answer ctx s ↔ e.Admissible (some id) answer ctx s := by
  rw [admissible_iff, admissible_iff, scope_about hbody]
  simp [hbody, about, names]

theorem nothing_asked (e : Enquiry) :
    (e.request.aggregations.isNull || e.request.aggregations.same (.arr [])) = e.names.isEmpty := by
  show ((e.asked.elim .null ofStrings).isNull || (e.asked.elim .null ofStrings).same (.arr [])) =
    (e.asked.getD []).isEmpty
  rcases e.asked with _ | _ | ⟨name, rest⟩ <;> rfl

theorem collections_given (e : Enquiry) :
    e.request.collections.truthy = !e.criteria.scope.isEmpty := by
  show (e.criteria.collections.elim .null ofStrings).truthy = _
  unfold Criteria.scope
  rcases e.criteria.collections with _ | _ | ⟨id, rest⟩ <;> rfl

/-- **A request by its body is run or ended**, about the collection that its path is taken to name.
-/
theorem reaches_post (hanswer : Steady answer) (hdescribed : ∀ id, Described answer ctx s id)
    {r : Request} {collection : Json}
    (hpath : pathNamed (ctx.library.urlPath r.url) = .ok collection)
    (hnamed : Names collection named) (hbase : Url.Base r.baseUrl) (searched : List String)
    {query : Option Query}
    (hquery : Searching.translated answer ctx s (e.criteria.filter.elim .null .obj) = .ok query) :
    Reaches answer (post ctx e.request .null (ofStrings searched) r) s
      (e.Sent named answer ctx s query) (e.Ended named answer ctx s) := by
  rw [post_eq_aggregate (p := e.criteria) rfl ctx hpath]
  obtain ⟨indices, hindices⟩ := Searching.indices_of_texts ctx.naming (some searched)
  have hrefused (hno : ¬ e.Admissible named answer ctx s)
      (h : (collection.truthy && e.request.collections.truthy) = true ∨
        (e.request.aggregations.isNull || e.request.aggregations.same (.arr [])) = true) :
      Reaches answer (aggregate ctx e.request collection (ofStrings searched) r) s
        (e.Sent named answer ctx s query) (e.Ended named answer ctx s) := by
    obtain ⟨text, htext⟩ := aggregate_refused h ctx (ofStrings searched) r
    rw [htext]
    exact .inr ⟨_, .fail _, .inl (.inr ⟨hno, text, rfl⟩)⟩
  -- Two requests are refused at once: one for nothing, and one with collections twice.
  by_cases hasked : e.names = []
  · exact hrefused (fun h => h.asked hasked) (.inr (by rw [nothing_asked, hasked]; rfl))
  have hnames : (e.request.aggregations.isNull || e.request.aggregations.same (.arr [])) =
      false := by
    rwa [nothing_asked, isEmpty_eq_false_iff]
  cases named with
  | none =>
    rw [Names] at hnamed
    rw [aggregate_eq_steps (by rw [hnamed]; rfl) hnames, narrowed, hnamed]
    exact reaches_request hanswer hdescribed hbase hasked hindices hquery collection
  | some id =>
    obtain ⟨rfl, hne⟩ := hnamed
    have hgiven : (str id).truthy = true := bne_iff_ne.mpr hne
    have hone : ((str id).truthy && e.request.collections.truthy) = !e.criteria.scope.isEmpty := by
      rw [hgiven, collections_given, Bool.true_and]
    by_cases hbody : e.criteria.scope = []
    · have hreaches := reaches_request (e := e.about id) hanswer hdescribed hbase hasked
        hindices hquery (.str id)
      unfold Sent Ended Stopped at hreaches ⊢
      simp only [admissible_about hbody, scope_about hbody] at hreaches
      rw [hbody] at hone
      rwa [aggregate_eq_steps hone hnames, narrowed, if_pos hgiven]
    · refine hrefused (fun h => hbody (h.single.resolve_left (Option.some_ne_none id)))
        (.inl (hone.trans ?_))
      simpa using hbody

/-- A database with one collection, which words an aggregation in its own way. -/
def holding : Unit → Call → Reply × Unit
  | (), .exists _ id => (.value (.bool (id == .str "a")), ())
  | (), .get _ _ => (.value (.single "_source" (.single "aggregations"
      (.arr [distribution "geometry_geohash_grid_frequency" "numeric"]))), ())
  | (), .aggregate _ => (.value (.single "aggregations" (.obj [])), ())
  | (), _ => (.value .null, ())

theorem own_holding (ctx : Context) (id : String) :
    Own holding ctx () id (.arr [distribution "geometry_geohash_grid_frequency" "numeric"]) :=
  ⟨_, _, rfl, rfl, rfl⟩

theorem described_holding (ctx : Context) (id : String) : Described holding ctx () id := by
  refine ⟨_, rfl, fun _ => ⟨_, own_holding ctx id, fun entry hentry => ?_⟩⟩
  rw [mem_singleton.mp hentry]
  exact ⟨_, rfl⟩

/-- A request for counts by day, and by a grid that is as fine as said. -/
def byGrid (fine : Int) : Enquiry where
  criteria := .everything
  asked := some ["geometry_geohash_grid_frequency", "datetime_frequency"]
  precision
    | .geometryGeohash => some fine
    | _ => none
  interval := some "day"

theorem admissible_byGrid (fine : Int) (id : String) :
    (byGrid fine).Admissible (some id) holding noon () ↔ 1 ≤ fine ∧ fine ≤ 12 := by
  refine ⟨fun h => h.fine.geometryGeohash fine rfl, fun hfine => ⟨by simp [names, byGrid], .inr rfl,
    ⟨by simp [scope], fun id _ own hown name hname => ?_⟩, ?_⟩⟩
  · cases hown.unique (own_holding noon id)
    obtain rfl | rfl : name = "geometry_geohash_grid_frequency" ∨ name =
        "datetime_frequency" := by simpa [names, byGrid] using hname
    · exact ⟨_, mem_cons_self, rfl⟩
    · exact ⟨distribution "datetime_frequency" "datetime", by simp [standard], rfl⟩
  · refine ⟨?_, ?_, ?_, fun n hn => Option.some.inj hn ▸ hfine, ?_, by simp [byGrid]⟩
    all_goals simp [byGrid, Within]

theorem stored_holding (id : String) : Stored holding noon () id ↔ id = "a" := by
  simp [Stored, holding, truthy]

/-- A request that is stopped lacks something. -/
theorem Stopped.lacks {fault : Fault} (h : e.Stopped named answer ctx s fault) :
    ¬ (e.Admissible named answer ctx s ∧ ∀ id ∈ e.scope named, Stored answer ctx s id) := by
  rintro ⟨hadmissible, hstored⟩
  rcases h with ⟨id, hid, hmissing, -⟩ | ⟨hno, -⟩
  · exact hmissing (hstored id hid)
  · exact hno hadmissible

/-- **An aggregation is run exactly if its geometry can be read and everything that is asked for is
there.** If something is not there, it ends as that demands; if the geometry cannot be read, it may
also end with the fault of reading it. -/
theorem aggregates_iff_admissible (hanswer : Steady answer)
    (hdescribed : ∀ id, Described answer ctx s id) {r : Request}
    (hnamed : ∀ id ∈ named, id ≠ "" ∧ '/' ∉ id.toList)
    (hpath : ctx.library.urlPath r.url = route [] named) (hbase : Url.Base r.baseUrl)
    (searched : List String) {query : Option Query}
    (hquery : Searching.translated answer ctx s (e.criteria.filter.elim .null .obj) = .ok query) :
    ((∃ sent, EndsWith answer Call.Look (post ctx e.request .null (Json.ofStrings searched) r) s
        [.aggregate sent]) ↔
      (∃ shape, e.criteria.shapeClauses ctx.library = .ok shape) ∧
        e.Admissible named answer ctx s ∧ ∀ id ∈ e.scope named, Stored answer ctx s id) ∧
    (¬ ((∃ shape, e.criteria.shapeClauses ctx.library = .ok shape) ∧
        e.Admissible named answer ctx s ∧ ∀ id ∈ e.scope named, Stored answer ctx s id) →
      ∃ fault,
        Asks answer Call.Look (post ctx e.request .null (Json.ofStrings searched) r) s
          (.error fault) ∧
        (e.Stopped named answer ctx s fault ∨
          e.criteria.shapeClauses ctx.library = .error fault)) := by
  have hread := pathNamed_route fun id hid => (hnamed id hid).2
  have hnames : Names (named.elim .null .str) named := by
    cases named with
    | none => rfl
    | some id => exact ⟨rfl, (hnamed id rfl).1⟩
  rcases reaches_post hanswer hdescribed (hpath ▸ hread) hnames hbase searched hquery with
    ⟨sent, hsent, shape, hshape, hall, -⟩ | ⟨fault, hfault, hended⟩
  · exact ⟨iff_of_true ⟨sent, hsent⟩ ⟨⟨shape, hshape⟩, hall⟩,
      fun hno => absurd ⟨⟨shape, hshape⟩, hall⟩ hno⟩
  · refine ⟨iff_of_false ?_ ?_, fun _ => ⟨fault, hfault, hended⟩⟩
    · rintro ⟨sent, hsent⟩
      exact hsent.of_asks hfault _ mem_cons_self
    · rintro ⟨⟨shape, hshape⟩, hall⟩
      rcases hended with hstopped | hunread
      · exact hstopped.lacks hall
      · cases hshape.symm.trans hunread

/-- The answer to a request for counts by a grid, at the path of a collection. -/
def gridAt (e : Enquiry) (path : String) : Program Json :=
  post noon e.request .null (Json.ofStrings []) (atRoot path)

/-- A request that is otherwise run, about a geometry whose type is not a text. -/
def byGeometry : Enquiry :=
  { byGrid 12 with criteria := { Criteria.everything with intersects := some [("type", .null)] } }

theorem admissible_byGeometry : byGeometry.Admissible (some "a") holding noon () := by
  have hgrid := (admissible_byGrid 12 "a").mpr (by decide)
  exact ⟨hgrid.asked, hgrid.single, hgrid.covered, hgrid.fine⟩

/-- As fine as can be, the counts of the one collection are run; any finer, they are refused; those
of another collection are not found; those in a geometry that cannot be read are neither run nor
refused. -/
theorem aggregates_iff_admissible_byGrid :
    (∃ sent, EndsWith holding Call.Look (gridAt (byGrid 12) "collections/a/aggregate") ()
      [.aggregate sent]) ∧
    (∃ fault, Asks holding Call.Look (gridAt (byGrid 13) "collections/a/aggregate") ()
        (.error fault) ∧
      (byGrid 13).Stopped (some "a") holding noon () fault) ∧
    (∃ fault, Asks holding Call.Look (gridAt (byGrid 12) "collections/b/aggregate") ()
        (.error fault) ∧
      (byGrid 12).Stopped (some "b") holding noon () fault) ∧
    Asks holding Call.Look (gridAt byGeometry "collections/a/aggregate") ()
      (.error (.noMember "NoneType" "lower")) := by
  have hquery : Searching.translated holding noon () .null = .ok none := rfl
  have hshape (fine : Int) : (byGrid fine).criteria.shapeClauses noon.library = .ok [] := rfl
  have hunread : byGeometry.criteria.shapeClauses noon.library =
      .error (.noMember "NoneType" "lower") := rfl
  have hdecided (e : Enquiry) (hquery : Searching.translated holding noon ()
        (e.criteria.filter.elim .null .obj) = .ok none) (id : String)
      (hid : id ≠ "" ∧ '/' ∉ id.toList) (path : String)
      (hpath : noon.library.urlPath (atRoot path).url = route [] (some id)) :=
    aggregates_iff_admissible (e := e) (fun _ _ _ => rfl) (described_holding noon)
      (fun other hother => Option.mem_some.mp hother ▸ hid) hpath Url.base_host [] hquery
  refine ⟨?_, ?_, ?_, ?_⟩
  · refine (hdecided (byGrid 12) hquery "a" (by decide) "collections/a/aggregate"
      (by decide +kernel)).1.mpr
      ⟨⟨_, hshape 12⟩, (admissible_byGrid _ _).mpr (by decide), ?_⟩
    simp [scope, Criteria.scope, byGrid, stored_holding]
  · obtain ⟨fault, hfault, hstopped | hunread⟩ :=
      (hdecided (byGrid 13) hquery "a" (by decide) "collections/a/aggregate" (by decide +kernel)).2
        fun h =>
        absurd ((admissible_byGrid _ _).mp h.2.1) (by decide)
    · exact ⟨fault, hfault, hstopped⟩
    · cases (hshape 13).symm.trans hunread
  · obtain ⟨fault, hfault, hstopped | hunread⟩ :=
      (hdecided (byGrid 12) hquery "b" (by decide) "collections/b/aggregate" (by decide +kernel)).2
        fun h =>
        absurd ((stored_holding "b").mp (h.2.2 "b" (by simp [scope]))) (by decide)
    · exact ⟨fault, hfault, hstopped⟩
    · cases (hshape 12).symm.trans hunread
  · obtain ⟨fault, hfault, hstopped | hsame⟩ :=
      (hdecided byGeometry hquery "a" (by decide) "collections/a/aggregate" (by decide +kernel)).2
        fun h => by
        obtain ⟨⟨shape, hread⟩, -⟩ := h
        cases hunread.symm.trans hread
    · refine absurd ⟨admissible_byGeometry, ?_⟩ hstopped.lacks
      simp [scope, Criteria.scope, byGeometry, stored_holding]
    · cases hunread.symm.trans hsame
      exact hfault

end Enquiry

end StacCatalog
