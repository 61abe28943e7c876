import StacCatalog.Api.Search
import StacCatalog.Proofs.Json.Access
import StacCatalog.Proofs.Query.Meaning
import StacCatalog.Search.Operator

/-!
# Queries by comparison operators
-/

namespace StacCatalog

variable {δ : Type} {db : Reading δ} {doc : δ} {a b : Json} {o : Ordering}

/-- What an operator says about two values that compare so. -/
def Operator.admits : Operator → Ordering → Bool
  | .eq, o => o == .eq
  | .ne, o => o != .eq
  | .lt, o => o == .lt
  | .lte, o => o != .gt
  | .gt, o => o == .gt
  | .gte, o => o != .lt

/-- Two values compare so, to the database as by themselves. -/
structure Orders (db : Reading δ) (a b : Json) (o : Ordering) : Prop where
  read : db.compare? a b = some o
  same : a.same b = (o == .eq)
  less : a.less b = .ok (o == .lt)
  greater : a.greater b = .ok (o == .gt)

theorem Operator.holds_iff (h : Orders db a b o) (op : Operator) :
    op.holds a b = .ok true ↔ op.admits o = true ∧ op ≠ .lte ∧ op ≠ .gte := by
  cases op <;> simp [holds, admits, h.same, h.less, h.greater, bne]

/-- A comparison that a query makes, of a property with a value. -/
structure Demand where
  field : String
  operator : Operator
  value : Json

namespace Demand

variable (d : Demand)

def name : String :=
  "properties__" ++ d.field

def condition : Condition :=
  if d.operator = .eq then .equals d.name d.value else .compares d.name d.operator.name d.value

theorem withComparison_eq (backend : Backend) (search : Search) :
    search.withComparison backend (.str d.operator.name) (.str d.name) d.value =
      .ok (search.filter d.condition) := by
  obtain ⟨field, op, value⟩ := d
  cases op <;> cases backend <;> rfl

/-- **What a comparison accepts**: what its operator says, unless the operator says that values
differ. -/
theorem accepts_iff (h : Orders db a d.value o) (ha : db.value? doc d.name = some a) :
    Query.accepts db doc d.condition.toJson = true ↔
      d.operator.admits o = true ∧ d.operator ≠ .ne := by
  obtain ⟨field, op, value⟩ := d
  cases op with
  | eq =>
    show ((db.value? doc (name _)).any fun v => db.compare? v value == some .eq) = true ↔ _
    rw [ha, Option.any_some, h.read]
    simp [Operator.admits]
  | _ =>
    show ((db.value? doc (name _)).any fun v => [(Operator.name _, value)].all
      (Query.meetsBound db v)) = true ↔ _
    rw [ha, Option.any_some, List.all_cons, List.all_nil, Bool.and_true]
    cases o <;> simp [Operator.name, Query.meetsBound, h.read, Operator.admits]

theorem accepts_iff_holds_iff (h : Orders db a d.value o) (ha : db.value? doc d.name = some a) :
    (Query.accepts db doc d.condition.toJson = true ↔ d.operator.holds a d.value = .ok true) ↔
      (d.operator = .ne → o = .eq) ∧ (d.operator = .lte → o = .gt) ∧
      (d.operator = .gte → o = .lt) := by
  rw [d.accepts_iff h ha, Operator.holds_iff h]
  cases d.operator <;> cases o <;> decide

end Demand

/-! ### Queries -/

/-- A query: comparisons of fields. -/
abbrev Comparisons := List (String × List (Operator × Json))

namespace Comparisons

def toJson (query : Comparisons) : Json :=
  .obj (query.map fun entry => (entry.1, .obj (entry.2.map fun test => (test.1.name, test.2))))

def demands (query : Comparisons) : List Demand :=
  query.flatMap fun entry => entry.2.map fun test => ⟨entry.1, test.1, test.2⟩

def added (demands : List Demand) : List Clause :=
  demands.map fun d => ⟨.filter, d.condition⟩

theorem withField_eq (backend : Backend) (search : Search) (field : String)
    (tests : List (Operator × Json)) :
    SearchApi.withField backend search (field, .obj (tests.map fun test => (test.1.name, test.2))) =
      .ok ⟨search.clauses ++ added (tests.map fun test => ⟨field, test.1, test.2⟩)⟩ := by
  show List.foldlM _ search _ = _
  induction tests generalizing search with
  | nil => simp [added]
  | cons test rest ih =>
    have hfirst := Demand.withComparison_eq ⟨field, test.1, test.2⟩ backend search
    refine Outcome.bind_eq_ok.mpr ⟨_, hfirst, (ih _).trans ?_⟩
    simp [added, Search.filter]

theorem withQuery_eq (backend : Backend) (search : Search) (query : Comparisons) :
    SearchApi.withQuery backend search query.toJson =
      .ok ⟨search.clauses ++ added query.demands⟩ := by
  show List.foldlM _ search _ = _
  induction query generalizing search with
  | nil => simp [added, demands]
  | cons entry rest ih =>
    rw [List.map_cons, List.foldlM_cons, withField_eq, Outcome.ok_bind, ih]
    simp [added, demands]

/-- The comparisons of a query add their clauses after all the others. -/
theorem plainClauses_query (ctx : Context) (request : SearchRequest) (query : Comparisons) :
    SearchApi.plainClauses ctx { request with query := some query.toJson } =
      SearchApi.plainClauses ctx { request with query := some .null } >>= fun search =>
        .ok ⟨search.clauses ++ added query.demands⟩ := by
  have hend (search) : (if query.toJson.truthy then
            SearchApi.withQuery ctx.backend search query.toJson else pure search) =
      .ok ⟨search.clauses ++ added query.demands⟩ := by
    rw [withQuery_eq]
    cases query with
    | nil => simp [toJson, Json.truthy, added, demands]
    | cons entry rest => rfl
  have hnone : Json.null.truthy = false := rfl
  unfold SearchApi.plainClauses
  simp only [SearchRequest.need, Outcome.ok_bind, hend, hnone, Bool.false_eq_true,
    if_false, bind_assoc, bind_pure]
  refine bind_congr fun ids => bind_congr fun collections => bind_congr fun datetime =>
    bind_congr fun search => bind_congr fun bbox => ?_
  split
  all_goals
    simp only [bind_assoc]
    refine bind_congr fun _ => ?_
  · refine bind_congr fun _ => bind_congr fun _ => ?_
    split <;> rfl
  · split <;> rfl

/-- **A query accepts what its operators say** about the properties of an item, unless one says that
values differ. By itself an operator says the same, unless it says that values differ or includes
equality. -/
theorem query_accepts_iff_admits (ctx : Context) (request : SearchRequest) {search : Search}
    (query : Comparisons)
    (hsearch : SearchApi.plainClauses ctx { request with query := some .null } = .ok search)
    (value : String → Json) (order : Demand → Ordering)
    (hvalue : ∀ d ∈ query.demands, db.value? doc d.name = some (value d.field))
    (horder : ∀ d ∈ query.demands, Orders db (value d.field) d.value (order d)) :
    SearchApi.plainClauses ctx { request with query := some query.toJson } =
      .ok ⟨search.clauses ++ added query.demands⟩ ∧
    ((∀ clause ∈ added query.demands, Query.accepts db doc clause.condition.toJson = true) ↔
      ∀ d ∈ query.demands, d.operator.admits (order d) = true ∧ d.operator ≠ .ne) ∧
    ∀ d ∈ query.demands,
      (Query.accepts db doc d.condition.toJson = true ↔
        d.operator.holds (value d.field) d.value = .ok true) ↔
        (d.operator = .ne → order d = .eq) ∧ (d.operator = .lte → order d = .gt) ∧
        (d.operator = .gte → order d = .lt) := by
  refine ⟨?_, ?_, fun d hd => d.accepts_iff_holds_iff (horder d hd) (hvalue d hd)⟩
  · rw [plainClauses_query, hsearch, Outcome.ok_bind]
  · unfold added
    rw [List.forall_mem_map]
    exact forall₂_congr fun d hd => d.accepts_iff (horder d hd) (hvalue d hd)

/-- Documents that are whole numbers, and have themselves in every field. -/
def numbers : Reading Int where
  value? n _ := some (.int n)
  compare?
    | .int a, .int b => some (compare a b)
    | _, _ => none
  relates _ _ _ := false

theorem orders_int (a b : Int) : Orders numbers (.int a) (.int b) (compare a b) where
  read := rfl
  same := rfl
  less := rfl
  greater := rfl

def belowSeven : Comparisons :=
  [("n", [(.lte, .int 7), (.ne, .int 7)])]

/-- Five is not accepted, and neither comparison says by itself what its clause accepts. -/
theorem query_accepts_iff_admits_five :
    SearchApi.plainClauses default { query := some belowSeven.toJson } =
      .ok ⟨added belowSeven.demands⟩ ∧
    (¬
      ∀ clause ∈ added belowSeven.demands, Query.accepts numbers 5 clause.condition.toJson = true) ∧
    ∀ d ∈ belowSeven.demands,
      ¬ (Query.accepts numbers 5 d.condition.toJson = true ↔
          d.operator.holds (.int 5) d.value = .ok true) := by
  have hdemands : ∀ d ∈ belowSeven.demands, d.value = .int 7 := by simp [belowSeven, demands]
  obtain ⟨hclauses, haccepts, hholds⟩ := query_accepts_iff_admits default {} belowSeven rfl
      (fun _ => .int 5)
    (fun _ => .lt) (fun _ _ => (rfl : numbers.value? 5 _ = _)) fun d hd => hdemands d hd ▸
      orders_int 5 7
  refine ⟨hclauses, fun h => ?_, fun d hd h => ?_⟩
  · exact (haccepts.mp h ⟨"n", .ne, .int 7⟩ (by simp [belowSeven, demands])).2 rfl
  · have hside := (hholds d hd).mp h
    obtain rfl | rfl : d = ⟨"n", .lte, .int 7⟩ ∨ d =
        ⟨"n", .ne, .int 7⟩ := by simpa [belowSeven, demands] using hd
    · exact absurd (hside.2.1 rfl) (by decide)
    · exact absurd (hside.1 rfl) (by decide)

end Comparisons

end StacCatalog
