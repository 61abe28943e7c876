import StacCatalog.Proofs.Placement.Runs
import StacCatalog.Proofs.Search.Criteria

/-!
# Which sorts can be resumed
-/

namespace StacCatalog

open List Fields

variable {name : String} {request : SearchRequest} {sort : Fields} {d e : Json}

namespace SortOrder

/-! ### Orders of documents -/

/-- The value of a document in a field. Dots lead into objects. -/
def valueAt (document : Json) (field : String) : Json :=
  (field.toList.splitOn '.').foldl (fun value name => value.field (String.ofList name)) document

def keyOf (sort : Fields) (document : Json) : List Json :=
  sort.map fun entry => valueAt document entry.1

/-- How a database compares the values of fields: either way round alike, and no two texts as equal.
-/
structure Collation where
  compare : Json → Json → Ordering
  swap : ∀ v w, compare w v = (compare v w).swap
  text : ∀ s t, compare (.str s) (.str t) = .eq → s = t

/-- How a sort compares two documents: the first field that tells them apart decides. -/
def Collation.compareBy (c : Collation) (sort : Fields) (d e : Json) : Ordering :=
  match sort with
  | [] => .eq
  | (field, order) :: rest =>
    (if order = direction (.str "desc") then c.compare (valueAt e field) (valueAt d field)
      else c.compare (valueAt d field) (valueAt e field)).then (c.compareBy rest d e)

namespace Collation

variable (c : Collation)

theorem self (v : Json) : c.compare v v = .eq := by
  have hswap := c.swap v v
  cases h : c.compare v v <;> rw [h] at hswap <;> first | rfl | cases hswap

theorem eq_comm {v w : Json} : c.compare w v = .eq ↔ c.compare v w = .eq := by
  rw [c.swap v w]
  cases c.compare v w <;> decide

theorem compareBy_swap (sort : Fields) (d e : Json) :
    c.compareBy sort e d = (c.compareBy sort d e).swap := by
  induction sort with
  | nil => rfl
  | cons entry rest ih =>
    unfold compareBy
    rw [Ordering.swap_then, ih]
    split
    · rw [← c.swap]
    · rw [← c.swap]

theorem compareBy_eq_iff (sort : Fields) (d e : Json) :
    c.compareBy sort d e = .eq ↔
      ∀ field ∈ names sort, c.compare (valueAt d field) (valueAt e field) = .eq := by
  induction sort with
  | nil => simp [compareBy, names]
  | cons entry rest ih =>
    have hfirst : (if entry.2 = direction (.str "desc") then
                c.compare (valueAt e entry.1) (valueAt d entry.1)
              else c.compare (valueAt d entry.1) (valueAt e entry.1)) = .eq ↔
        c.compare (valueAt d entry.1) (valueAt e entry.1) = .eq := by
      split
      · exact c.eq_comm
      · exact Iff.rfl
    have hnames : names (entry :: rest) = entry.1 :: names rest := rfl
    rw [hnames, forall_mem_cons, compareBy, Ordering.then_eq_eq, hfirst, ih]

/-- One of two documents comes before the other. -/
def Separates (sort : Fields) (d e : Json) : Prop :=
  c.compareBy sort d e = .lt ∧ c.compareBy sort e d = .gt ∨ c.compareBy sort d e = .gt ∧
    c.compareBy sort e d = .lt

theorem separates_iff (sort : Fields) (d e : Json) :
    c.Separates sort d e ↔ c.compareBy sort d e ≠ .eq := by
  unfold Separates
  rw [c.compareBy_swap sort d e]
  cases c.compareBy sort d e <;> decide

theorem compareBy_eq_of_key (sort : Fields) (h : keyOf sort d = keyOf sort e) :
    c.compareBy sort d e = .eq := by
  rw [compareBy_eq_iff]
  intro field hfield
  obtain ⟨entry, hentry, rfl⟩ := mem_map.mp hfield
  rw [map_inj_left.mp h entry hentry]
  exact c.self _

end Collation

theorem valueAt_of_no_dot (h : '.' ∉ name.toList) (document : Json) :
    valueAt document name = document.field name := by
  unfold valueAt
  rw [splitOn_eq_singleton h, foldl_cons, foldl_nil, String.ofList_toList]

theorem foldl_field_null (names : List (List Char)) :
    names.foldl (fun value name => value.field (String.ofList name)) Json.null = .null := by
  induction names with
  | nil => rfl
  | cons name rest ih => exact ih

theorem valueAt_eq_of_ne {member s t : String} (hd : d.field member = .str s)
    (he : e.field member = .str t) (hother : ∀ name, name ≠ member → d.field name = e.field name)
    {field : String} (hfield : field ≠ member) : valueAt d field = valueAt e field := by
  unfold valueAt
  cases hsplit : field.toList.splitOn '.' with
  | nil => exact absurd hsplit (splitOn_ne_nil _ _)
  | cons first rest =>
    by_cases hfirst : String.ofList first = member
    · cases rest with
      | nil =>
        have hwhole : ['.'].intercalate (field.toList.splitOn '.') = field.toList :=
            intercalate_splitOn _
        rw [hsplit, intercalate_singleton] at hwhole
        rw [hwhole, String.ofList_toList] at hfirst
        exact absurd hfirst hfield
      | cons second rest =>
        -- A text has no members.
        simp only [foldl_cons, hfirst, hd, he]
        exact (foldl_field_null rest).trans (foldl_field_null rest).symm
    · rw [foldl_cons, foldl_cons, hother _ hfirst]

/-! ### Sorts of requests -/

/-- A term of a sort. -/
structure Term where
  field : String
  direction : String
  deriving DecidableEq, Repr

def Term.toJson (t : Term) : Json :=
  .obj [("field", .str t.field), ("direction", .str t.direction)]

def ofList (terms : List Term) : Fields :=
  ofEntries (terms.map fun t => (t.field, SortOrder.direction (.str t.direction)))

def sentFor (terms : List Term) : Fields :=
  if terms = [] then standard else ofList terms

/-- A request that asks for a sort by the given terms; it may leave it out if there are none. -/
def AskedBy (terms : List Term) (request : SearchRequest) : Prop :=
  request.sortby = some (.arr (terms.map Term.toJson)) ∨ terms = [] ∧ request.sortby = some .null

def textTable (fields : Fields) : Json.Table :=
  fields.map fun entry => (.str entry.1, entry.2)

theorem set_textTable (fields : Fields) (name : String) (value : Json) :
    (textTable fields).set (.str name) value = textTable (fields.insert name value) := by
  induction fields with
  | nil => rfl
  | cons entry rest ih =>
    obtain ⟨k, v⟩ := entry
    have hstep : textTable ((k, v) :: rest) = (.str k, v) :: textTable rest := rfl
    have hsame : (Json.str k).sameKey (.str name) = decide (k = name) := by
      rw [Bool.eq_iff_iff, Json.sameKey_str, decide_eq_true_iff, Json.str.injEq]
    rw [hstep, Json.Table.set, hsame, Fields.insert, Keyed.set]
    by_cases hname : k = name
    · rw [if_pos (decide_eq_true hname), if_pos hname]
      rfl
    · rw [if_neg (by simpa using hname), if_neg hname, ih]
      rfl

theorem foldlM_addTerm (terms : List Term) (fields : Fields) :
    (terms.map Term.toJson).foldlM addTerm (textTable fields) =
      .ok (textTable (fields.insertAll
            (terms.map fun t => (t.field, SortOrder.direction (.str t.direction))))) := by
  induction terms generalizing fields with
  | nil => rfl
  | cons t rest ih =>
    rw [map_cons, foldlM_cons]
    have hterm : addTerm (textTable fields) t.toJson =
        .ok (textTable (fields.insert t.field (direction (.str t.direction)))) := by
      rw [← set_textTable]
      rfl
    rw [hterm, Outcome.ok_bind, ih]
    rfl

/-- **The sort of a request** is by its terms as they are. -/
theorem ofTerms_eq (terms : List Term) (h : terms ≠ []) :
    ofTerms (.arr (terms.map Term.toJson)) = .ok (some (textTable (ofList terms))) := by
  have htruthy : (Json.arr (terms.map Term.toJson)).truthy = true := by
    cases terms with
    | nil => exact absurd rfl h
    | cons t rest => rfl
  unfold ofTerms
  rw [if_pos htruthy]
  show (foldlM addTerm (textTable []) (terms.map Term.toJson) >>= fun table => .ok (some table)) = _
  rw [foldlM_addTerm]
  rfl

theorem toFields_textTable {fields : Fields} (h : fields.names.Nodup) :
    (textTable fields).toFields = fields := by
  have hentries : (textTable fields).map (fun entry => (entry.1.keyName, entry.2)) = fields := by
    rw [textTable, map_map]
    exact map_id fields
  show insertAll [] ((textTable fields).map fun entry => (entry.1.keyName, entry.2)) = fields
  have hnames : ([] ++ fields : Fields).names.Nodup := h
  rw [hentries]
  exact insertAll_of_nodup hnames

variable {terms : List Term}

theorem sent_eq (h : AskedBy terms request) : ∃ asked sort, request.sortby = some asked ∧
    ofTerms asked = .ok sort ∧
      (let given := (sort.map fun table => Json.obj table.toFields).getD .null
       if given.truthy then given else .obj standard) = .obj (sentFor terms) := by
  by_cases hterms : terms = []
  · rcases h with h | ⟨-, h⟩
    · refine ⟨_, none, h, ?_, ?_⟩
      · rw [hterms]
        rfl
      · rw [sentFor, if_pos hterms]
        rfl
    · refine ⟨_, none, h, rfl, ?_⟩
      rw [sentFor, if_pos hterms]
      rfl
  · rcases h with h | ⟨hnone, -⟩
    · have hnone : (names []).Nodup := nodup_nil
      have hnodup : (ofList terms).names.Nodup := nodup_insertAll hnone _
      refine ⟨_, _, h, ofTerms_eq terms hterms, ?_⟩
      have hgiven : (Json.obj (ofList terms)).truthy = true := by
        obtain ⟨t, rest, rfl⟩ := exists_cons_of_ne_nil hterms
        have hmem : t.field ∈ (ofList (t :: rest)).names :=
          mem_names_insertAll.mpr (.inr mem_cons_self)
        cases hsort : ofList (t :: rest) with
        | nil =>
          rw [hsort] at hmem
          cases hmem
        | cons entry rest => rfl
      rw [Option.map_some, toFields_textTable hnodup, Option.getD_some, sentFor, if_neg hterms]
      exact if_pos hgiven
    · exact absurd hnone hterms

open Program

/-- A page is asked for with the given sort. -/
def Sorted (sort : Fields) : Call → Prop
  | .findItems page => page.sort = .obj sort
  | _ => True

theorem sends_page {sort : Json} {sorted : Fields}
    (h : (if sort.truthy then sort else .obj standard) = .obj sorted) (ctx : Context)
    (search : Search) (limit token collections ignoreUnavailable : Json) :
    Sends (Sorted sorted)
      (Searching.page ctx search limit token sort collections ignoreUnavailable) := by
  have hafter (after) : Sends (Sorted sorted)
      (Searching.pageFrom Searching.nextToken ctx search limit sort collections ignoreUnavailable
        after) := by
    refine .liftM_bind fun indices _ => .liftM_bind fun next _ => .liftM_bind fun size _ =>
      ⟨h, fun reply => ⟨trivial, fun count => ?_⟩⟩
    have hreply : Sends (Sorted sorted) (ofReply reply) := by cases reply <;> exact trivial
    exact hreply.orMissing.bind fun _ => .liftM_bind fun _ _ => .liftM_bind fun _ _ =>
      .liftM_bind fun _ _ =>
      .liftM_bind fun _ _ => .liftM_bind fun _ _ => .pure _
  exact .liftM_bind fun key _ => hafter key

/-- **Every page of a search** is asked for with the sort for its terms. -/
theorem sends_post (h : AskedBy terms request) (ctx : Context) (portal : Portal) (r : Request) :
    Sends (Sorted (sentFor terms)) (SearchApi.post ctx portal request r) := by
  obtain ⟨asked, sort, hasked, hsort, hsent⟩ := sent_eq h
  have hclauses : Sends (Sorted (sentFor terms)) (SearchApi.clauses ctx request) := by
    refine (SearchApi.sends_clauses ctx request).imp fun c hc => ?_
    cases c with
    | findItems page => cases hc
    | _ => trivial
  refine hclauses.bind fun search => ?_
  rw [hasked]
  refine .liftM_bind fun _ hneed => .liftM_bind fun _ hterms => .liftM_bind fun limit _ =>
    .liftM_bind fun token _ =>
    .liftM_bind fun collections _ => ?_
  cases hneed
  cases hsort.symm.trans hterms
  refine (sends_page hsent ctx search _ token collections (.bool true)).bind fun found => ?_
  refine .liftM_bind fun included _ => .liftM_bind fun excluded _ => ?_
  exact .bind (.mapM (fun _ => .liftM_bind fun _ _ => .liftM_bind fun _ _ => .liftM _) _) fun _ =>
    .liftM _

/-! ### Items that are told apart -/

def Names (document : Json) (id collection : String) : Prop :=
  document.field "id" = .str id ∧ document.field "collection" = .str collection

/-- A sort by id and collection tells all items apart. -/
theorem separates_of_mem (hid : "id" ∈ names sort) (hcollection : "collection" ∈ names sort)
    (c : Collation) {i j k l : String} (hd : Names d i k) (he : Names e j l)
    (hne : (i, k) ≠ (j, l)) : c.Separates sort d e := by
  rw [c.separates_iff]
  intro heq
  rw [c.compareBy_eq_iff] at heq
  have hids := heq "id" hid
  have hcollections := heq "collection" hcollection
  rw [valueAt_of_no_dot (by decide), valueAt_of_no_dot (by decide), hd.1, he.1] at hids
  rw [valueAt_of_no_dot (by decide), valueAt_of_no_dot (by decide), hd.2, he.2] at hcollections
  exact hne (Prod.ext (c.text _ _ hids) (c.text _ _ hcollections))

theorem keyOf_eq_of_notMem {member s t : String} (h : member ∉ names sort)
    (hd : d.field member = .str s) (he : e.field member = .str t)
    (hother : ∀ name, name ≠ member → d.field name = e.field name) :
    keyOf sort d = keyOf sort e := by
  refine map_congr_left fun entry hentry => valueAt_eq_of_ne hd he hother ?_
  intro heq
  exact h (heq ▸ mem_map_of_mem hentry)

def bare (id collection : String) : Json :=
  .obj [("id", .str id), ("collection", .str collection)]

/-- A sort that leaves out the id or the collection has two items of one key. -/
theorem exists_same_key (h : ¬ ("id" ∈ Fields.names sort ∧ "collection" ∈ Fields.names sort)) :
    ∃ d e i j k l, Names d i k ∧ Names e j l ∧ (i, k) ≠ (j, l) ∧ keyOf sort d = keyOf sort e := by
  have hother : ∀ (i j k l : String) (name : String), name ≠ "id" → name ≠ "collection" →
      (bare i k).field name = (bare j l).field name := by
    intro i j k l name hid hcollection
    simp [bare, Json.field, Fields.getD, Fields.get?, Keyed.lookup_cons, hid, hcollection]
  by_cases hid : "id" ∈ Fields.names sort
  · have hcollection : "collection" ∉ Fields.names sort := fun hmem => h ⟨hid, hmem⟩
    refine ⟨bare "x" "a", bare "x" "b", "x", "x", "a", "b", ⟨rfl, rfl⟩, ⟨rfl, rfl⟩, by decide, ?_⟩
    refine keyOf_eq_of_notMem hcollection rfl rfl fun name hname => ?_
    by_cases hname' : name = "id"
    · rw [hname']
      rfl
    · exact hother _ _ _ _ name hname' hname
  · refine ⟨bare "x" "a", bare "y" "a", "x", "y", "a", "a", ⟨rfl, rfl⟩, ⟨rfl, rfl⟩, by decide, ?_⟩
    refine keyOf_eq_of_notMem hid rfl rfl fun name hname => ?_
    by_cases hname' : name = "collection"
    · rw [hname']
      rfl
    · exact hother _ _ _ _ name hname hname'

theorem mem_names_sentFor (hstandard : name ∈ standardNames) :
    name ∈ names (sentFor terms) ↔ terms = [] ∨ ∃ t ∈ terms, t.field = name := by
  unfold sentFor
  split
  · rename_i hterms
    exact iff_of_true hstandard (.inl hterms)
  · rename_i hterms
    have hnames : names (terms.map fun t => (t.field, SortOrder.direction (.str t.direction))) =
        terms.map Term.field := by
      rw [names, map_map]
      rfl
    rw [ofList, ofEntries, mem_names_insertAll, hnames, mem_map]
    simp [hterms, names]

/-- Terms that leave the sort to the catalogue, or name both the id and the collection. -/
def Resumable (terms : List Term) : Prop :=
  terms = [] ∨ (∃ t ∈ terms, t.field = "id") ∧ ∃ t ∈ terms, t.field = "collection"

theorem resumable_iff (terms : List Term) :
    Resumable terms ↔ "id" ∈ names (sentFor terms) ∧ "collection" ∈ names (sentFor terms) := by
  rw [mem_names_sentFor (by decide), mem_names_sentFor (by decide), Resumable]
  tauto

/-- **Which sorts can be resumed.** Every page of a search is asked for with the sort for its terms,
and a search by criteria that can be used does ask for one. The sort separates all items of
different ids or collections, whatever else they hold and however the database compares values,
exactly if the terms are resumable. If they are not, there are two items of one key. -/
theorem sort_resumes_iff {σ : Type} (terms : List Term) (ctx : Context) (portal : Portal)
    (r : Request) (c : Collation) :
    (∀ request, AskedBy terms request →
      Sends (Sorted (sentFor terms)) (SearchApi.post ctx portal request r)) ∧
    (∀ (answer : Answering σ) (s : σ) (p : Criteria) request shape query,
      Steady answer → p.SearchedBy request → AskedBy terms request →
      p.shapeClauses ctx.library = .ok shape →
      Searching.translated answer ctx s (p.filter.elim .null .obj) = .ok query →
        ∃ page : Page, EndsWith answer Call.Look (SearchApi.post ctx portal request r) s
          [.findItems page, .count page.indices page.ignoreUnavailable page.search] ∧
          page.sort = .obj (sentFor terms)) ∧
    ((∀ d e i j k l, Names d i k → Names e j l → (i, k) ≠ (j, l) →
        c.Separates (sentFor terms) d e) ↔ Resumable terms) ∧
    (¬ Resumable terms → ∃ d e i j k l, Names d i k ∧ Names e j l ∧ (i, k) ≠ (j, l) ∧
      keyOf (sentFor terms) d = keyOf (sentFor terms) e) := by
  refine ⟨fun request h => sends_post h ctx portal r, ?_, ⟨?_, ?_⟩, ?_⟩
  · intro answer s p request shape query hanswer hsearch hasked hshape hquery
    obtain ⟨page, hends, -⟩ := p.endsWith_search hanswer portal hsearch r hshape hquery
    refine ⟨page, hends, ?_⟩
    obtain ⟨o, asked, t, htraces, -⟩ := hends
    have hmem : Call.findItems page ∈
        ((SearchApi.post ctx portal request r).trace answer s).1.2 := by
      rw [htraces]
      simp
    exact (sends_post hasked ctx portal r).of_mem_trace s hmem
  · intro hseparates
    by_contra hterms
    rw [resumable_iff] at hterms
    obtain ⟨d, e, i, j, k, l, hd, he, hne, hkey⟩ := exists_same_key hterms
    exact (c.separates_iff _ _ _).mp (hseparates d e i j k l hd he hne)
      (c.compareBy_eq_of_key _ hkey)
  · intro hterms d e i j k l hd he hne
    obtain ⟨hid, hcollection⟩ := (resumable_iff terms).mp hterms
    exact separates_of_mem hid hcollection c hd he hne
  · intro hterms
    rw [resumable_iff] at hterms
    exact exists_same_key hterms

/-- Texts are compared by their characters and come first; all else counts as equal. -/
def textual : Collation where
  compare
    | .str s, .str t => compare s t
    | .str _, _ => .lt
    | _, .str _ => .gt
    | _, _ => .eq
  swap v w := by
    have htexts : ∀ s t : String, compare t s = (compare s t).swap :=
        fun s t => Std.OrientedOrd.eq_swap
    cases v <;> cases w <;> first | rfl | exact htexts _ _
  text s t h := by
    have htext : compare s t = .eq := h
    exact Std.LawfulEqOrd.eq_of_compare htext

open Criteria

def byTime : List Term :=
  [⟨"properties.datetime", "asc"⟩]

def oldestFirst : SearchRequest :=
  { sortby := some (.arr (byTime.map Term.toJson)) }

theorem searchedBy_oldestFirst : everything.SearchedBy oldestFirst where
  ids := rfl
  collections := rfl
  datetime := rfl
  bbox := rfl
  intersects := rfl
  filter := rfl
  query := rfl
  words := .inr rfl
  sortby := ⟨_, _, rfl, ofTerms_eq byTime nofun⟩
  limit := .inl rfl
  token := ⟨.null, rfl, nofun⟩

/-- A search for the oldest items is sorted by nothing but their time, and two items share a key;
the standard sort separates all. -/
theorem sort_resumes_iff_by_time :
    (∃ page : Page,
      EndsWith (Store.answer []) Call.Look (SearchApi.post noon default oldestFirst default)
        ⟨[], []⟩ [.findItems page, .count page.indices page.ignoreUnavailable page.search] ∧
      page.sort = .obj [("properties.datetime", direction (.str "asc"))]) ∧
    (∃ d e i j k l, Names d i k ∧ Names e j l ∧ (i, k) ≠ (j, l) ∧
      keyOf [("properties.datetime", direction (.str "asc"))] d =
        keyOf [("properties.datetime", direction (.str "asc"))] e) ∧
    ∀ d e i j k l,
      Names d i k → Names e j l → (i, k) ≠ (j, l) → textual.Separates standard d e := by
  obtain ⟨-, hpage, -, hsame⟩ := sort_resumes_iff (σ := Store) byTime noon default default textual
  have hterms : ¬ Resumable byTime := by
    rintro (hnil | ⟨⟨t, ht, hid⟩, -⟩)
    · cases hnil
    · rw [List.mem_singleton.mp ht] at hid
      exact absurd hid (by decide)
  refine ⟨?_, hsame hterms, ?_⟩
  · exact hpage _ _ everything oldestFirst [] none (Store.steady []) searchedBy_oldestFirst
      (.inl rfl) rfl rfl
  · exact (sort_resumes_iff (σ := Store) [] noon default default textual).2.2.1.mpr (.inl rfl)

end SortOrder

end StacCatalog
