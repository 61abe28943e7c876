import StacCatalog.Api.Aggregate
import StacCatalog.Proofs.Placement.Memory
import StacCatalog.Proofs.Program.Traces
import StacCatalog.Proofs.Wire.Search

/-!
# The criteria by which requests select items
-/

namespace StacCatalog

open Program SearchApi Searching List

variable {σ : Type} {library : Library} {request : SearchRequest} {filter : Json}
    {query : Option Query} {fault : Fault}

/-- The criteria by which a request selects items. What is left out is `none`, or does not count as
given. -/
structure Criteria where
  ids : Json
  collections : Option (List String)
  datetime : Json
  bbox : Option (List Json)
  intersects : Option Fields
  filter : Option Fields
  bbox_length : ∀ numbers, bbox = some numbers → numbers.length = 4 ∨ numbers.length = 6
  filter_nonempty : filter ≠ some []

def Criteria.everything : Criteria where
  ids := .null
  collections := none
  datetime := .null
  bbox := none
  intersects := none
  filter := none
  bbox_length := nofun
  filter_nonempty := nofun

@[simp] theorem Criteria.collections_everything : everything.collections = none := rfl

namespace Criteria

variable (p : Criteria)

/-! ### Clauses -/

def idsClauses : List Clause :=
  if p.ids.truthy then [⟨.filter, .ids p.ids⟩] else []

def collectionsClauses : List Clause :=
  match p.collections with
  | none | some [] => []
  | some names => [⟨.filter, .collections (Json.ofStrings names)⟩]

def timeClauses : List Clause :=
  match Time.bounds (.value p.datetime) with
  | .ok ends => if p.datetime.truthy then [⟨.query, .overlaps ends⟩] else []
  | .error _ => []

/-- The rectangle of a box, without its heights. -/
def boxClauses : List Clause :=
  match p.bbox with
  | some [x0, y0, x1, y1] | some [x0, y0, _, x1, y1, _] =>
    [⟨.filter, .intersects ⟨"polygon", Geometry.boxPolygon x0 y0 x1 y1⟩⟩]
  | _ => []

/-- The clause of the geometry, if the library can read it. -/
def shapeClauses (library : Library) : Outcome (List Clause) :=
  match p.intersects with
  | none => .ok []
  | some fields => do return [⟨.filter, .intersects (← Search.shapeOf library (.obj fields))⟩]

/-- A translated filter also ranks on one of the backends. -/
def filterClauses (backend : Backend) : Option Query → List Clause
  | none => []
  | some query =>
    [⟨match backend with | .elasticsearch => .query | .opensearch => .filter, .filter query⟩]

/-- The clauses of the criteria, with those of their geometry and of their filter once these are
read. -/
def clauses (shape : List Clause) (backend : Backend) (query : Option Query) : List Clause :=
  p.idsClauses ++ p.collectionsClauses ++ p.timeClauses ++ p.boxClauses ++ shape ++
    filterClauses backend query

/-- A request to search by the criteria, without a query and without words. Its order, limit and
token can be used. -/
structure SearchedBy (request : SearchRequest) : Prop where
  ids : request.ids = some p.ids
  collections : request.collections = some (p.collections.elim .null Json.ofStrings)
  datetime : request.datetime = some p.datetime
  bbox : request.bbox = some (p.bbox.elim .null .arr)
  intersects : request.intersects = some (p.intersects.elim .null .obj)
  filter : request.filter = some (p.filter.elim .null .obj)
  query : request.query = some .null
  words : request.words = none ∨ request.words = some .null
  sortby : ∃ terms sort, request.sortby = some terms ∧ SortOrder.ofTerms terms = .ok sort
  limit : request.limit = some .null ∨ ∃ n : Int, request.limit = some (.int n)
  token : ∃ token, request.token = some token ∧
    (token.truthy = true → ∃ key, Token.toKey token = .ok key)

/-- A request that states the criteria, and asks for the aggregations of the given names. -/
structure StatedBy (asked : List String) (request : AggregateApi.AggregateRequest) : Prop where
  ids : request.ids = p.ids
  collections : request.collections = p.collections.elim .null Json.ofStrings
  datetime : request.datetime = p.datetime
  bbox : request.bbox = p.bbox.elim .null .arr
  intersects : request.intersects = p.intersects.elim .null .obj
  filter : request.filter = p.filter.elim .null .obj
  aggregations : request.aggregations = Json.ofStrings asked
  asked_nonempty : asked ≠ []
  fineness : ∃ f, AggregateApi.fineness request = .ok f

/-- A request to aggregate by the criteria. It states them all, or the path names the only
collection. -/
def AggregatedBy (path : String) (asked : List String) (request : AggregateApi.AggregateRequest)
    (collection : Json) : Prop :=
  Json.occursIn "collections".toList path.toList = false ∧ collection = .null ∧
    p.StatedBy asked request ∨ ∃ name, Json.occursIn "collections".toList path.toList = true ∧
      AggregateApi.pathCollection path = .ok (.str name) ∧ name ≠ "" ∧
        request.collections.truthy = false ∧
      p.StatedBy asked { request with collections := .arr [.str name] }

/-! ### What the parts of a request add -/

section Parts

variable {p} (search : Search)

theorem withIds_eq :
    (if p.ids.truthy then search.withIds p.ids else search) = ⟨search.clauses ++ p.idsClauses⟩ := by
  unfold idsClauses
  split
  · rfl
  · rw [append_nil]

theorem withCollections_eq : (if (p.collections.elim .null Json.ofStrings).truthy then
      search.withCollections (p.collections.elim .null Json.ofStrings) else search) =
        ⟨search.clauses ++ p.collectionsClauses⟩ := by
  unfold collectionsClauses
  rcases p.collections with _ | _ | ⟨name, rest⟩
  · exact congrArg Search.mk (append_nil _).symm
  · exact congrArg Search.mk (append_nil _).symm
  · rfl

theorem withInterval_eq :
    search.withInterval (.value p.datetime) = .ok ⟨search.clauses ++ p.timeClauses⟩ := by
  obtain ⟨ends, hends⟩ : ∃ ends, Time.bounds (.value p.datetime) = .ok ends := by
    cases p.datetime with
    | str s =>
      simp only [Time.bounds]
      split <;> exact ⟨_, rfl⟩
    | _ => exact ⟨_, rfl⟩
  unfold Search.withInterval timeClauses
  rw [hends]
  by_cases hgiven : p.datetime.truthy = true
  · simp only [Search.intervalGiven, hgiven, if_true]
    rfl
  · simp only [Search.intervalGiven, hgiven]
    simp

theorem withBox_bind (f : Search → Outcome Search) :
    (if (p.bbox.elim .null Json.arr).truthy then do
        f (← search.withBox (← Browse.flatBox (p.bbox.elim .null .arr)))
      else f search) = f ⟨search.clauses ++ p.boxClauses⟩ := by
  unfold boxClauses
  cases hbox : p.bbox with
  | none => exact congrArg (f ⟨·⟩) (append_nil _).symm
  | some numbers =>
    rcases p.bbox_length numbers hbox with hlength | hlength
    · match numbers, hlength with
      | [x0, y0, x1, y1], _ => rfl
    · match numbers, hlength with
      | [x0, y0, z0, x1, y1, z1], _ => rfl

theorem withShape_bind (f : Search → Outcome Search) :
    (if shapeGiven (p.intersects.elim .null .obj) then do
        f (← search.withShape library (p.intersects.elim .null .obj))
      else f search) = p.shapeClauses library >>= fun shape => f ⟨search.clauses ++ shape⟩ := by
  unfold shapeClauses
  cases p.intersects with
  | none => exact congrArg (f ⟨·⟩) (append_nil _).symm
  | some fields =>
    simp only [Option.elim_some, shapeGiven, Json.isObj, Bool.true_or, if_true, Search.withShape]
    cases Search.shapeOf library (.obj fields) <;> rfl

end Parts

/-- **The clauses of a search**, apart from its filter. -/
theorem plainClauses_search {p : Criteria} (h : p.SearchedBy request) (ctx : Context) :
    plainClauses ctx request = p.shapeClauses ctx.library >>= fun shape =>
      .ok ⟨p.idsClauses ++ p.collectionsClauses ++ p.timeClauses ++ p.boxClauses ++ shape⟩ := by
  unfold plainClauses
  simp only [h.ids, h.collections, h.datetime, h.bbox, h.intersects, h.query, SearchRequest.need,
    Outcome.ok_bind, withIds_eq, withCollections_eq, withInterval_eq]
  exact (withBox_bind _ _).trans (withShape_bind _ _)

/-- **The clauses of an aggregation**, apart from its collections and its filter. -/
theorem plainClauses_aggregate {p : Criteria} {asked : List String}
    {request : AggregateApi.AggregateRequest} (h : p.StatedBy asked request) (library : Library) :
    AggregateApi.plainClauses library request =
      p.shapeClauses library >>=
      fun shape => .ok ⟨p.idsClauses ++ p.timeClauses ++ p.boxClauses ++ shape⟩ := by
  unfold AggregateApi.plainClauses
  simp only [h.ids, h.datetime, h.bbox, h.intersects, Outcome.ok_bind, withIds_eq, withInterval_eq]
  have hshape := @withShape_bind library p
    ⟨Search.empty.clauses ++ p.idsClauses ++ p.timeClauses ++ p.boxClauses⟩ pure
  rw [bind_pure] at hshape
  exact (withBox_bind _ _).trans hshape

end Criteria

/-! ### Filters -/

/-- The call reads a document or a mapping. -/
def Call.Look : Call → Prop
  | .exists .. | .get .. | .getMapping .. => True
  | _ => False

/-- A database that is not changed by being looked at. -/
def Steady (answer : Answering σ) : Prop :=
  ∀ s c, c.Look → (answer s c).2 = s

theorem Store.steady (refused : List String) : Steady (Store.answer refused) := by
  have hkeyed (s : Store) (id : Json) (reply : Reply) : (s.keyed id (reply, s)).2 = s := by
    rcases Store.keyed_cases s id (reply, s) with h | h <;> exact h
  intro s c hc
  cases c with
  | «exists» index id => exact hkeyed s id _
  | get index id =>
    simp only [Store.answer]
    split <;> exact hkeyed s id _
  | getMapping index strict => rfl
  | _ => cases hc

namespace Searching

variable {ctx : Context}

/-- What a filter is translated to in a state of the database. -/
def translated (answer : Answering σ) (ctx : Context) (s : σ) (filter : Json) :
    Outcome (Option Query) :=
  ((translation ctx filter).run answer s).1

theorem sends_translation (ctx : Context) (filter : Json) :
    Sends Call.Look (translation ctx filter) := by
  unfold translation
  split
  · exact .pure _
  · refine .bind (.bind (.perform trivial) fun _ => .liftM_bind fun _ _ => .pure _) fun _ =>
      .liftM_bind fun _ _ => .pure _

theorem withFilter_eq (ctx : Context) (search : Search) (filter : Json) :
    withFilter ctx search filter = translation ctx filter >>= fun query =>
      pure ⟨search.clauses ++ Criteria.filterClauses ctx.backend query⟩ := by
  refine congrArg (translation ctx filter >>= ·) (funext fun query => congrArg pure ?_)
  cases query with
  | none => simp [Criteria.filterClauses]
  | some query =>
    unfold Option.elim Search.withFilter
    cases ctx.backend <;> rfl

variable {answer : Answering σ}

theorem asks_withFilter (hanswer : Steady answer) (ctx : Context) (s : σ) (search : Search)
    (filter : Json) :
    Asks answer Call.Look (withFilter ctx search filter) s
      (translated answer ctx s filter >>=
        fun query => .ok ⟨search.clauses ++ Criteria.filterClauses ctx.backend query⟩) := by
  rw [withFilter_eq]
  exact (Asks.of_sends (sends_translation ctx filter) hanswer s).bind fun query _ => .liftM (.ok _)

theorem asks_orRefuse_ok (hanswer : Steady answer) {s : σ} (search : Search)
    (h : translated answer ctx s filter = .ok query) (reason : String) :
    Asks answer Call.Look (orRefuse (withFilter ctx search filter) reason) s
      (.ok ⟨search.clauses ++ Criteria.filterClauses ctx.backend query⟩) := by
  have hasks := asks_withFilter hanswer ctx s search filter
  rw [h] at hasks
  exact hasks.recover

theorem asks_orRefuse_error (hanswer : Steady answer) {s : σ} (search : Search)
    (h : translated answer ctx s filter = .error fault) (reason : String) :
    Asks answer Call.Look (orRefuse (withFilter ctx search filter) reason) s
      (.error (.http 400 (reason ++ fault.text))) := by
  have hasks := asks_withFilter hanswer ctx s search filter
  rw [h] at hasks
  exact hasks.recover_error (.fail _)

/-! ### Searches -/

/-- **A page** is one search, and one count of all that match. -/
theorem endsWith_page (answer : Answering σ) (ctx : Context) (search : Search) (n : Int)
    {token : Json} (htoken : token.truthy = true → ∃ key, Token.toKey token = .ok key) (sort : Json)
    {collections : Json} {indices : String}
    (hindices : ctx.naming.indices collections = .ok indices) (ignoreUnavailable : Json) (s : σ) :
    ∃ sent : Page,
      EndsWith answer Call.Look (page ctx search (.int n) token sort collections ignoreUnavailable)
        s [.findItems sent, .count sent.indices sent.ignoreUnavailable sent.search] ∧
      sent.search = search := by
  obtain ⟨size, hsize⟩ : ∃ size, (Json.int (n + 1)).atMost window = .ok size := by
    unfold Json.atMost
    rw [Json.less_int]
    cases decide (window < n + 1) <;> exact ⟨_, rfl⟩
  have hafter (after) : EndsWith answer Call.Look
      (pageFrom nextToken ctx search (.int n) sort collections ignoreUnavailable after) s
      [.findItems ⟨indices, ignoreUnavailable, search,
        if sort.truthy then sort else .obj SortOrder.standard, after, size⟩,
        .count indices ignoreUnavailable search] := by
    refine .liftM_bind hindices (.liftM_bind rfl (.liftM_bind hsize ?_))
    refine .ask_bind (.ask_bind (.of_sends_nothing ?_ _))
    have hreply : ∀ reply, Sends (fun _ => False) (ofReply reply) :=
        fun reply => by cases reply <;> exact trivial
    exact (hreply _).orMissing.bind fun _ => .liftM_bind fun _ _ => .liftM_bind fun _ _ =>
      .liftM_bind fun _ _ =>
      .liftM_bind fun _ _ => .liftM_bind fun _ _ => .pure _
  obtain ⟨after, hstart⟩ : ∃ after, startOf token = .ok after := by
    unfold startOf
    split
    · exact htoken ‹_›
    · exact ⟨_, rfl⟩
  exact ⟨_, .liftM_bind hstart (hafter after), rfl⟩

end Searching

/-- Before a search is sent, only mappings are read. -/
theorem SearchApi.sends_clauses (ctx : Context) (request : SearchRequest) :
    Sends Call.Look (clauses ctx request) := by
  have hwords (words : Json) (search : Search) : Sends Call.Look
      (orRefuse (ofOutcome (search.withWords words)) "Error with free text query: ") :=
    .recover (.liftM _) fun _ => .fail _
  refine .liftM_bind fun search _ => ?_
  cases request.filter with
  | none =>
    cases request.words with
    | none => exact .pure _
    | some words => exact hwords words search
  | some filter =>
    refine .bind (.recover ?_ fun _ => .fail _) fun search => ?_
    · rw [withFilter_eq]
      exact (sends_translation ctx filter).bind fun _ => .pure _
    · cases request.words with
      | none => exact .pure _
      | some words => exact hwords words search

namespace Criteria

variable {p : Criteria} {answer : Answering σ} {ctx : Context} {s : σ}

/-- **A search by the criteria** asks for one page, with their clauses. -/
theorem endsWith_search (hanswer : Steady answer) (portal : Portal) (h : p.SearchedBy request)
    (r : Request) {shape : List Clause} (hshape : p.shapeClauses ctx.library = .ok shape)
    (hquery : Searching.translated answer ctx s (p.filter.elim .null .obj) = .ok query) :
    ∃ sent : Page,
      EndsWith answer Call.Look (SearchApi.post ctx portal request r) s
        [.findItems sent, .count sent.indices sent.ignoreUnavailable sent.search] ∧
      sent.search.clauses = p.clauses shape ctx.backend query := by
  obtain ⟨terms, sort, hterms, hsort⟩ := h.sortby
  obtain ⟨token, htoken, hkey⟩ := h.token
  obtain ⟨indices, hindices⟩ := indices_of_texts ctx.naming p.collections
  obtain ⟨limit, n, hlimit, hn⟩ : ∃ limit, ∃ n : Int, request.limit = some limit ∧
      (if limit.truthy then limit else .int 10) = .int n := by
    rcases h.limit with hnull | ⟨n, hint⟩
    · exact ⟨_, 10, hnull, rfl⟩
    · refine ⟨_, if (Json.int n).truthy then n else 10, hint, ?_⟩
      split <;> rfl
  obtain ⟨sent, hpage, hsearch⟩ :=
      endsWith_page answer ctx ⟨p.clauses shape ctx.backend query⟩ n hkey
    ((sort.map fun table => Json.obj table.toFields).getD .null) hindices (.bool true) s
  refine ⟨sent, ?_, by rw [hsearch]⟩
  have hclauses : Asks answer Call.Look (SearchApi.clauses ctx request) s
      (.ok ⟨p.clauses shape ctx.backend query⟩) := by
    have hplain := plainClauses_search h ctx
    rw [hshape] at hplain
    refine .liftM_bind hplain ?_
    rw [h.filter]
    refine (asks_orRefuse_ok hanswer _ hquery _).bind_ok ?_
    rcases h.words with hwords | hwords <;> rw [hwords] <;> exact .liftM (.ok _)
  refine .of_asks_bind hclauses ?_
  rw [hterms, hlimit, htoken, h.collections]
  refine .liftM_bind rfl
    (.liftM_bind hsort (.liftM_bind rfl (.liftM_bind rfl (.liftM_bind rfl ?_))))
  rw [hn]
  refine hpage.bind fun found => .liftM_bind fun included _ => .liftM_bind fun excluded _ => ?_
  exact .bind (.mapM (fun _ => .liftM_bind fun _ _ => .liftM_bind fun _ _ => .liftM _) _) fun _ =>
    .liftM _

/-- A search whose filter cannot be translated is refused. -/
theorem asks_search_error (hanswer : Steady answer) (portal : Portal) (h : p.SearchedBy request)
    (r : Request) {shape : List Clause} (hshape : p.shapeClauses ctx.library = .ok shape)
    (hfault : Searching.translated answer ctx s (p.filter.elim .null .obj) = .error fault) :
    Asks answer Call.Look (post ctx portal request r) s
      (.error (.http 400 ("Error with cql2_json filter: " ++ fault.text))) := by
  have hplain := plainClauses_search h ctx
  rw [hshape] at hplain
  refine .bind_error (.liftM_bind hplain ?_)
  rw [h.filter]
  exact (asks_orRefuse_error hanswer _ hfault _).bind_error

/-- A search whose geometry cannot be read ends there, with nothing asked. -/
theorem asks_search_unread (answer : Answering σ) (portal : Portal)
    (h : p.SearchedBy request) (r : Request) (s : σ)
    (hshape : p.shapeClauses ctx.library = .error fault) :
    Asks answer Call.Look (post ctx portal request r) s (.error fault) := by
  have hplain := plainClauses_search h ctx
  rw [hshape] at hplain
  unfold SearchApi.post SearchApi.clauses
  rw [hplain]
  exact .bind_error (.bind_error (.liftM _))

end Criteria

end StacCatalog
