import StacCatalog.Database.Searching
import StacCatalog.Library.Plain
import StacCatalog.Proofs.Index.Names
import StacCatalog.Proofs.Json.Access
import StacCatalog.Proofs.Paging.Basic

/-!
# Paging through a search for items loses nothing and repeats nothing
-/

namespace StacCatalog

open Program List Outcome Json

variable {key : List Json} {token collections ignoreUnavailable : Json} {ctx : Context}
    {search : Search} {limit : Nat}
  {indices : String}

/-! ### What a request for a page sends -/

namespace Page

/-- The keywords in which a backend looks for the place to go on from. -/
def placeFields (backend : Backend) (p : Page) : Fields :=
  match backend with
  | .elasticsearch => p.args backend
  | .opensearch => ((Fields.getD (p.args backend) "body").fields?).getD []

/-- The sort key that a request sends, if it sends one. -/
def sentAfter (backend : Backend) (p : Page) : Option Json :=
  Fields.get? (p.placeFields backend) "search_after"

def sentSize (backend : Backend) (p : Page) : Option Json :=
  Fields.get? (p.args backend) "size"

theorem sentSize_eq (backend : Backend) (p : Page) : p.sentSize backend = some p.size := by
  unfold sentSize args
  cases backend with
  | elasticsearch => by_cases h : p.after.isNull <;> simp [Fields.get?, lookup_cons, h]
  | opensearch => simp [Fields.get?, lookup_cons]

theorem sentAfter_null (backend : Backend) {p : Page} (h : p.after = .null) :
    p.sentAfter backend = none := by
  unfold sentAfter placeFields args
  cases backend with
  | elasticsearch => simp [Fields.get?, lookup_cons, h, isNull]
  | opensearch =>
    by_cases hq : p.search.clauses.isEmpty <;>
      simp [Fields.get?, Fields.getD, lookup_cons, fields?, h, hq, truthy]

theorem sentAfter_key (backend : Backend) {p : Page} (h : p.after = .arr key) (hne : key ≠ []) :
    p.sentAfter backend = some (.arr key) := by
  have ht : (arr key).truthy = true := by simp [truthy, hne]
  unfold sentAfter placeFields args
  cases backend with
  | elasticsearch => simp [Fields.get?, lookup_cons, h, isNull]
  | opensearch =>
    by_cases hq : p.search.clauses.isEmpty <;>
      simp [Fields.get?, Fields.getD, lookup_cons, fields?, h, hq, ht]

end Page

/-! ### What the database finds -/

/-- A hit: the entry by which the database reports a document, with the document and its sort key.
-/
structure Hit where
  fields : Fields
  source : Json
  key : List Json
  source_eq : fields.get? "_source" = some source
  key_eq : fields.get? "sort" = some (.arr key)
  key_ne_nil : key ≠ []

def hitsJson (hits : List Hit) : Json :=
  .arr (hits.map fun hit => .obj hit.fields)

/-- What a search finds: hits in the strict order of their sort keys. -/
structure Ranking where
  /-- Whether a sort key comes before another. -/
  before : List Json → List Json → Bool
  hits : List Hit
  asymm : ∀ a b, before a b = true → before b a = false
  sorted : hits.Pairwise fun a b => before a.key b.key = true

variable {rest : List Hit} {hit : Hit}

namespace Ranking

/-- The hits that come after a place; all of them if no place is given. -/
def after (r : Ranking) : Option Json → List Hit
  | none => r.hits
  | some (.arr key) => r.hits.filter fun hit => r.before key hit.key
  | some _ => []

theorem after_key (r : Ranking) {pre : List Hit} (h : r.hits = pre ++ hit :: rest) :
    r.after (some (.arr hit.key)) = rest := by
  have hsorted := r.sorted
  rw [h] at hsorted
  rw [after, h]
  exact filter_of_pairwise (fun a b => r.asymm a.key b.key) hsorted

end Ranking

/-- An answer of the database that reports the given hits. How many there are in all is reported
too, by a number that need not be exact. -/
def Reports (answer : Json) (hits : List Hit) : Prop :=
  ∃ found total relation value, answer.item "hits" = .ok found ∧
    found.item "hits" = .ok (hitsJson hits) ∧ found.item "total" = .ok total ∧
    total.item "relation" = .ok relation ∧ total.item "value" = .ok value

/-- A database that answers every page of a search from a ranking, in whatever state it is. Nothing
is said of its answers to other calls. -/
def Serves {σ : Type} (backend : Backend) (search : Search) (r : Ranking)
    (answer : Answering σ) : Prop :=
  ∀ (s : σ) (p : Page) (size : Nat), p.search = search → p.sentSize backend = some (.int size) →
    ∃ v, (answer s (.findItems p)).1 = .value v ∧
      Reports v ((r.after (p.sentAfter backend)).take size)

/-- A database that holds a ranking and nothing else. -/
def Ranking.answer (r : Ranking) (backend : Backend) (u : Unit) (c : Call) : Reply × Unit :=
  match c with
  | .findItems p =>
    match p.sentSize backend with
    | some (.int size) =>
      (.value (.single "hits" (.obj [
        ("total", .obj [("value", .int r.hits.length), ("relation", .str "eq")]),
        ("hits", hitsJson ((r.after (p.sentAfter backend)).take size.toNat))])), u)
    | _ => (.fault (.badRequest .null), u)
  | .count .. => (.value (.single "count" (.int r.hits.length)), u)
  | _ => (.value (.obj []), u)

theorem Ranking.serves_answer (r : Ranking) (backend : Backend) (search : Search) :
    Serves backend search r (r.answer backend) := by
  intro u p size _ hsize
  refine ⟨_, by simp only [Ranking.answer, hsize]; rfl, ?_⟩
  exact ⟨_, _, _, _, rfl, rfl, rfl, rfl, rfl⟩

/-- A sort key that can be written as a token and read back. -/
def Token.Faithful (key : Json) : Prop :=
  ∃ token, Token.ofKey key = .ok token ∧ Token.toKey (.str token) = .ok key

/-! ### One page -/

theorem Token.ofKey_ne_empty {token : String} (h : Token.ofKey (.arr key) = .ok token) :
    token ≠ "" := by
  have hdigits : ∀ bytes : List Nat, bytes ≠ [] → Text.encodeBase64 bytes ≠ [] := by
    intro bytes hne
    rcases bytes with _ | ⟨a, _ | ⟨b, _ | ⟨c, rest⟩⟩⟩
    · exact absurd rfl hne
    all_goals simp [Text.encodeBase64]
  have hbytes : Text.utf8 ((arr key).write .tight) ≠ [] := by
    simp [Text.utf8, Text.utf8Char, write]
  unfold Token.ofKey at h
  split at h
  · cases h
  · split at h
    · cases h
    · cases h
      rw [Ne, String.ofList_eq_empty_iff]
      exact hdigits _ hbytes

variable {hits : List Hit}

/-- A way to read a list at a position. -/
abbrev Reader : Type :=
  List Json → Int → Outcome Json

namespace Searching

variable {σ : Type} {answer : Answering σ}

/-- Reads a page of items: the documents and the token of the next page. -/
def readItems (ctx : Context) (search : Search)
    (limit sort collections ignoreUnavailable token : Json) : Program (List Json × Json) := do
  let found ← page ctx search limit token sort collections ignoreUnavailable
  return (← found.items, found.token)

/-- Reads a page of items, with the token of the next one read off the hits in a given way. -/
def readItemsWith (next : Json → Json → Outcome Json) (ctx : Context) (search : Search)
    (limit sort collections ignoreUnavailable token : Json) : Program (List Json × Json) := do
  let found ← pageFrom next ctx search limit sort collections ignoreUnavailable (← startOf token)
  return (← found.items, found.token)

theorem readItems_eq (ctx : Context) (search : Search)
    (limit sort collections ignoreUnavailable token : Json) :
    readItems ctx search limit sort collections ignoreUnavailable token =
      readItemsWith nextToken ctx search limit sort collections ignoreUnavailable token :=
  Program.bind_assoc ..

/-- What is asked for: one more than the page holds, within the window. -/
theorem size_eq (limit : Nat) :
    (int (limit + 1)).atMost window = .ok (.int (min (limit + 1) 10000 : Nat)) := by
  have hwindow : window = 10000 := rfl
  rw [atMost, less_int, ok_bind, hwindow]
  by_cases hlt : (10000 : Int) < limit + 1
  · rw [if_pos (by simpa using hlt), Nat.min_eq_right (by omega)]
    rfl
  · rw [if_neg (by simpa using hlt), Nat.min_eq_left (by omega)]
    rfl

/-- What is made of the hits of a page: the items that it holds, and the token. -/
def ofHits (next : Json → Json → Outcome Json) (v : Json) (limit : Nat) (hits : List Json) :
    Outcome (List Json × Json) := do
  let token ← next (.arr hits) (.int limit)
  let _ ← total v
  return (← (hits.take limit).mapM fun hit => hit.item "_source", token)

/-- **One page**, whatever is found. -/
theorem run_readItemsWith {sort after v : Json} {hits : List Json} {s : σ}
    (hafter : startOf token = .ok after)
    (hindices : ctx.naming.indices collections = .ok indices)
    (hreply : (answer s
          (.findItems ⟨indices, ignoreUnavailable, search,
              if sort.truthy then sort else .obj SortOrder.standard, after,
              .int (min (limit + 1) 10000 : Nat)⟩)).1 = .value v)
    (hlists : ListsHits v hits) :
    ∃ t, ∀ next,
      (readItemsWith next ctx search (.int limit) sort collections ignoreUnavailable token).run
          answer s = (ofHits next v limit hits, t) := by
  obtain ⟨found, hfound, hhits⟩ := hlists
  have hshown : (arr hits).upTo (.int limit) = .ok (hits.take limit) := by
    simp [upTo, sequence?, wholeNumber?, takeInt]
  have hsucc : (int limit).succ = .ok (.int (limit + 1)) := rfl
  have hvalue : ∀ s : σ, ((ofReply (.value v)).orMissing (.items collections)).run answer s =
      (.ok v, s) := fun s =>
    run_orMissing_eq_ok.mpr (run_ofReply_value v)
  refine ⟨(answer (answer s (.findItems ⟨indices, ignoreUnavailable, search,
    if sort.truthy then sort else .obj SortOrder.standard, after,
      .int (min (limit + 1) 10000 : Nat)⟩)).2
    (.count indices ignoreUnavailable search)).2, fun next => ?_⟩
  simp only [readItemsWith, run_bind_eq, hafter, pageFrom, run_liftM, hindices, hsucc, size_eq,
    run_ask, hreply, hvalue, hfound, hhits, hshown, ofHits]
  cases next (.arr hits) (.int limit) with
  | error fault => rfl
  | ok token =>
    cases total v with
    | error fault => rfl
    | ok n =>
      simp only [run_pure, Found.items, ok_bind]
      cases (hits.take limit).mapM fun hit => hit.item "_source" <;> rfl

/-- The token of the next page, read in a given way. -/
def nextTokenBy (nth : Reader) (hits limit : Json) : Outcome Json := do
  let more ← (int (← hits.size)).greater limit
  let within ← if more then limit.less (.int window) else .ok false
  match within, hits.sequence?, limit.wholeNumber? with
  | true, some items, some n =>
    if items.isEmpty then return .null else keyToken (← nth items (n - 1))
  | _, _, _ => return .null

theorem nextTokenBy_of_le (nth : Reader) {hits : List Json} (h : hits.length ≤ limit) :
    nextTokenBy nth (.arr hits) (.int limit) = .ok .null := by
  have hmore : decide ((limit : Int) < hits.length) = false := by
    rw [decide_eq_false_iff_not]
    omega
  simp only [nextTokenBy, size, ok_bind, greater_int, hmore]
  rfl

theorem nextTokenBy_of_lt (nth : Reader) {hits : List Json} (h : limit < hits.length)
    (hw : hits.length ≤ 10000) :
    nextTokenBy nth (.arr hits) (.int limit) = nth hits (limit - 1) >>= keyToken := by
  have hmore : decide ((limit : Int) < hits.length) = true := by simpa using h
  have hless : decide ((limit : Int) < window) = true := by
    rw [decide_eq_true_iff]
    show (limit : Int) < 10000
    omega
  have hne : hits.isEmpty = false := isEmpty_eq_false_iff.mpr (length_pos_iff.mp (by omega))
  simp only [nextTokenBy, size, ok_bind, greater_int, hmore, less_int, hless, if_true,
    sequence?, wholeNumber?, hne]
  rfl

/-- If there is one more hit than the page holds, the token of the next page is that of the last hit
on this one. -/
theorem nextToken_of_lt (hw : (limit : Int) < window) {shown : List Hit} {another : Hit}
    (hlen : shown.length + 1 = limit) :
    nextToken (hitsJson (shown ++ [hit, another])) (.int limit) =
      (Token.ofKey (.arr hit.key)).map .str := by
  have hlength : ((shown ++ [hit, another]).map fun hit => obj hit.fields).length = limit +
      1 := by simp [← hlen]
  have hnth : nthInt ((shown ++ [hit, another]).map fun hit => obj hit.fields) (limit - 1) =
      .ok (.obj hit.fields) := by
    have hidx : ((limit : Int) - 1).natAbs = shown.length := by omega
    have hneg : ¬ (limit : Int) - 1 < 0 := by omega
    simp only [nthInt, if_neg hneg, hidx]
    simp
  have hkey : (obj hit.fields).lookup "sort" = .ok (.arr hit.key) := by
    simp only [Json.lookup, Fields.getD, hit.key_eq, Option.getD_some]
  have htruthy : (arr hit.key).truthy = true := by simp [truthy, hit.key_ne_nil]
  have htoken := nextTokenBy_of_lt nthInt (Nat.lt_of_lt_of_eq (Nat.lt_succ_self limit) hlength.symm)
    (by unfold window at hw; omega)
  rw [hnth, ok_bind, keyToken, hkey, ok_bind, if_pos htruthy] at htoken
  refine htoken.trans ?_
  cases Token.ofKey (.arr hit.key) <;> rfl

theorem mapM_source (hits : List Hit) :
    (hits.map fun hit => obj hit.fields).mapM (fun hit => hit.item "_source") =
      (.ok (hits.map Hit.source) : Outcome (List Json)) :=
  mapM_map_ok fun hit _ => item_of_get? hit.source_eq

theorem total_of_reports {v : Json} (h : Reports v hits) : ∃ n, total v = .ok n := by
  obtain ⟨found, count, relation, value, hfound, -, htotal, hrelation, hvalue⟩ := h
  simp only [total, hfound, htotal, hrelation, hvalue, ok_bind]
  split
  · exact ⟨value, rfl⟩
  · exact ⟨.null, rfl⟩

/-- **One page.** From the key that its token stands for, a page gives the first `limit` of the hits
that are reported, and the token that goes with them. -/
theorem run_readItems {sort after v next : Json} {s : σ} (hw : (limit : Int) < window)
    (hafter : startOf token = .ok after)
    (hindices : ctx.naming.indices collections = .ok indices)
    (hreply : (answer s
          (.findItems ⟨indices, ignoreUnavailable, search,
              if sort.truthy then sort else .obj SortOrder.standard, after, .int (limit + 1)⟩)).1 =
      .value v)
    (hreports : Reports v hits) (hnext : nextToken (hitsJson hits) (.int limit) = .ok next) :
    ∃ t, (readItems ctx search (.int limit) sort collections ignoreUnavailable token).run answer s =
      (.ok ((hits.take limit).map Hit.source, next), t) := by
  obtain ⟨n, htotal⟩ := total_of_reports hreports
  obtain ⟨found, -, -, -, hfound, hhits, -⟩ := hreports
  have hsize : min (limit + 1) 10000 = limit + 1 := Nat.min_eq_left (by unfold window at hw; omega)
  obtain ⟨t, hrun⟩ := run_readItemsWith hafter hindices (by rw [hsize]; exact hreply)
      ⟨found, hfound, hhits⟩
  refine ⟨t, ?_⟩
  rw [readItems_eq, hrun, ofHits, ← map_take, mapM_source]
  simp only [hitsJson] at hnext
  rw [hnext, htotal]
  rfl

end Searching

variable {r : Ranking}

/-! ### All pages -/

namespace Ranking

/-- **What is unread.** Without a token everything is; a token stands for the sort key of a hit, and
what follows that hit is unread. -/
def Unread (r : Ranking) (rest : List Hit) (token : Json) : Prop :=
  (token = .null ∧ rest = r.hits) ∨ ∃ pre hit text, r.hits = pre ++ hit :: rest ∧
    token = .str text ∧ text ≠ "" ∧
      Token.toKey (.str text) = .ok (.arr hit.key)

/-- A token that stands for what is unread is turned into a key, and the database finds what is
unread after it. -/
theorem Unread.after (h : r.Unread rest token) (backend : Backend) :
    ∃ after, Searching.startOf token = .ok after ∧
      ∀ p : Page, p.after = after → r.after (p.sentAfter backend) = rest := by
  rcases h with ⟨rfl, rfl⟩ | ⟨pre, hit, text, hsplit, rfl, hne, hkey⟩
  · refine ⟨.null, rfl, ?_⟩
    intro p hp
    rw [p.sentAfter_null backend hp]
    rfl
  · have htruthy : (str text).truthy = true := by simpa [truthy] using hne
    refine ⟨.arr hit.key, by rw [Searching.startOf, if_pos htruthy, hkey], ?_⟩
    intro p hp
    rw [p.sentAfter_key backend hp hit.key_ne_nil]
    exact r.after_key hsplit

theorem Unread.suffix (h : r.Unread rest token) : ∃ pre, r.hits = pre ++ rest := by
  rcases h with ⟨-, rfl⟩ | ⟨pre, hit, -, hsplit, -⟩
  · exact ⟨[], rfl⟩
  · exact ⟨pre ++ [hit], by rw [hsplit, append_assoc]; rfl⟩

theorem split_at_page (hl : 1 ≤ limit) (h : limit < rest.length) :
    ∃ shown hit more, rest = shown ++ hit :: more ∧ shown.length + 1 = limit ∧ more ≠ [] := by
  have hlt : limit - 1 < rest.length := by omega
  refine ⟨rest.take (limit - 1), rest[limit - 1], rest.drop limit, ?_, ?_, ?_⟩
  · conv_lhs => rw [← take_append_drop (limit - 1) rest, drop_eq_getElem_cons hlt]
    rw [Nat.sub_add_cancel hl]
  · rw [length_take]
    omega
  · rw [← length_pos_iff, length_drop]
    omega

end Ranking

namespace Searching

variable {σ : Type} {answer : Answering σ}

theorem indices_of_texts (n : Naming) (collections : Option (List String)) :
    ∃ indices, n.indices (collections.elim .null ofStrings) = .ok indices := by
  cases collections with
  | none => exact ⟨_, rfl⟩
  | some ids =>
    simp only [Option.elim, ofStrings, Naming.indices, elements, ok_bind, Naming.mapM_aliasFor]
    split <;> exact ⟨_, rfl⟩

/-- **One page from anywhere in a run.** A page is the beginning of what is unread, and its token
stands for what is unread after it. -/
theorem readItems_step {sort : Json} (hl : 1 ≤ limit) (hw : (limit : Int) < window)
    (hindices : ctx.naming.indices collections = .ok indices)
    (hserves : Serves ctx.backend search r answer)
    (hkeys : ∀ hit ∈ r.hits, Token.Faithful (.arr hit.key)) (hunread : r.Unread rest token)
    (s : σ) :
    ∃ next t,
      (readItems ctx search (.int limit) sort collections ignoreUnavailable token).run answer s =
        (.ok ((rest.take limit).map Hit.source, next), t) ∧
      (rest.length ≤ limit → next = .null) ∧
      (limit < rest.length → next ≠ .null ∧ r.Unread (rest.drop limit) next) := by
  obtain ⟨after, hafter, hfound⟩ := hunread.after ctx.backend
  obtain ⟨v, hreply, hreports⟩ := hserves s ⟨indices, ignoreUnavailable, search,
    if sort.truthy then sort else .obj SortOrder.standard, after, .int (limit + 1)⟩ (limit + 1) rfl
    (Page.sentSize_eq _ _)
  rw [hfound _ rfl] at hreports
  have hpage : (rest.take (limit + 1)).take limit = rest.take limit := by
    rw [take_take, Nat.min_eq_left (Nat.le_succ limit)]
  by_cases hlt : limit < rest.length
  · obtain ⟨pre, hpre⟩ := hunread.suffix
    obtain ⟨shown, hit, more, rfl, hlen, hmore⟩ := Ranking.split_at_page hl hlt
    obtain ⟨text, htext, hback⟩ := hkeys hit (by rw [hpre]; simp)
    obtain ⟨another, others, rfl⟩ := exists_cons_of_ne_nil hmore
    have hasked : (shown ++ hit :: another :: others).take (limit + 1) =
        shown ++ [hit, another] := by
      rw [← hlen, Nat.add_assoc, take_length_add_append]
      rfl
    have hnext : nextToken (hitsJson ((shown ++ hit :: another :: others).take (limit + 1)))
          (.int limit) = .ok (.str text) := by
      rw [hasked, nextToken_of_lt hw hlen, htext]
      rfl
    obtain ⟨t, hrun⟩ := run_readItems hw hafter hindices hreply hreports hnext
    rw [hpage] at hrun
    refine ⟨.str text, t, hrun, fun hle => absurd hlt (Nat.not_lt.mpr hle), fun _ =>
      ⟨by simp, .inr ?_⟩⟩
    refine ⟨pre ++ shown, hit, text, ?_, rfl, Token.ofKey_ne_empty htext, hback⟩
    rw [hpre, ← hlen, drop_length_add_append, append_assoc]
    rfl
  · have hle : rest.length ≤ limit := Nat.not_lt.mp hlt
    have hnext : nextToken (hitsJson (rest.take (limit + 1))) (.int limit) = .ok .null :=
      nextTokenBy_of_le nthInt (by rw [length_map, length_take]; omega)
    obtain ⟨t, hrun⟩ := run_readItems hw hafter hindices hreply hreports hnext
    rw [hpage] at hrun
    exact ⟨.null, t, hrun, fun _ => rfl, fun h => absurd h hlt⟩

/-- **Paging loses nothing and repeats nothing.** Whatever hits a search finds, for every limit
below the window and for both backends, reading on from page to page ends, in one way only: it cuts
the documents of the hits into pages of `limit`, in their order. -/
theorem walk_readItems_pages (ctx : Context) (search : Search) (limit : Nat)
    (sort ignoreUnavailable : Json) (collections : Option (List String)) (r : Ranking)
    (answer : Answering σ) (s : σ) (hl : 1 ≤ limit) (hw : limit < 10000)
    (hserves : Serves ctx.backend search r answer)
    (hkeys : ∀ hit ∈ r.hits, Token.Faithful (.arr hit.key)) :
    ∃ pages,
      Walk answer
        (readItems ctx search (.int limit) sort (collections.elim .null Json.ofStrings)
          ignoreUnavailable) .null s pages ∧
      (∀ others,
        Walk answer
          (readItems ctx search (.int limit) sort (collections.elim .null Json.ofStrings)
            ignoreUnavailable) .null s others →
        others = pages) ∧
      pages.length = max 1 (r.hits.length ⌈/⌉ limit) ∧
      (∀ page ∈ pages.dropLast, page.length = limit) ∧ pages.flatten = r.hits.map Hit.source := by
  obtain ⟨indices, hindices⟩ := indices_of_texts ctx.naming collections
  have hw' : (limit : Int) < window := by
    unfold window
    omega
  have hrun : ∃ pages,
      Walk answer
        (readItems ctx search (.int limit) sort (collections.elim .null Json.ofStrings)
          ignoreUnavailable) .null s pages ∧
      Pages limit (r.hits.map Hit.source) pages := by
    refine Walk.of_step hl (fun rest token => ∃ hits, rest = hits.map Hit.source ∧
      r.Unread hits token) ?_ _ _ s
      ⟨r.hits, rfl, Or.inl ⟨rfl, rfl⟩⟩
    rintro rest token s ⟨hits, rfl, hunread⟩
    obtain ⟨next, t, hrun, hend, hmore⟩ := readItems_step hl hw' hindices hserves hkeys hunread s
    rw [← map_take, ← map_drop, length_map]
    exact ⟨next, t, hrun, hend, fun hlt => ⟨(hmore hlt).1, _, rfl, (hmore hlt).2⟩⟩
  obtain ⟨pages, hwalk, hpages⟩ := hrun
  refine ⟨pages, hwalk, fun others h => hwalk.unique h, ?_, hpages.full, hpages.flatten⟩
  rw [hpages.count, length_map]

def newerFirst : List Json → List Json → Bool
  | .int a :: _, .int b :: _ => decide (b < a)
  | _, _ => false

theorem newerFirst_asymm (a b : List Json) (h : newerFirst a b = true) :
    newerFirst b a = false := by
  unfold newerFirst at h ⊢
  split at h
  · simp only [decide_eq_true_eq] at h
    simp only [decide_eq_false_iff_not]
    omega
  · cases h

def hitAt (time : Int) (id : String) : Hit where
  fields := [("_id", .str id), ("_source", .single "id" (.str id)),
    ("sort", .arr [.int time, .str id])]
  source := .single "id" (.str id)
  key := [.int time, .str id]
  source_eq := rfl
  key_eq := rfl
  key_ne_nil := by simp

def threeItems : Ranking where
  before := newerFirst
  hits := [hitAt 1714979289000 "c", hitAt 1714892889000 "b", hitAt 0 "a"]
  asymm := newerFirst_asymm
  sorted := by decide

/-- Three items are two pages of at most two. -/
theorem walk_readItems_pages_three :
    ∃ pages,
      Walk (threeItems.answer .opensearch)
        (readItems ⟨.opensearch, .standard, [], default, false, [], .plain⟩ ⟨[]⟩ (.int 2) .null
          (.arr [.str "a"]) (.bool true)) .null () pages ∧
      pages.length = 2 ∧
      pages.flatten =
        [.single "id" (.str "c"), .single "id" (.str "b"), .single "id" (.str "a")] := by
  have hkeys : ∀ hit ∈ threeItems.hits, Token.Faithful (.arr hit.key) := by
    intro hit hmem
    simp only [threeItems, mem_cons, not_mem_nil, or_false] at hmem
    rcases hmem with rfl | rfl | rfl
    · exact ⟨"WzE3MTQ5NzkyODkwMDAsImMiXQ==", by decide +kernel, by decide +kernel⟩
    · exact ⟨"WzE3MTQ4OTI4ODkwMDAsImIiXQ==", by decide +kernel, by decide +kernel⟩
    · exact ⟨"WzAsImEiXQ==", by decide +kernel, by decide +kernel⟩
  obtain ⟨pages, hwalk, -, hcount, -, hwhole⟩ := walk_readItems_pages
    ⟨.opensearch, .standard, [], default, false, [], .plain⟩ ⟨[]⟩ 2 .null (.bool true)
      (some ["a"]) threeItems
    (threeItems.answer .opensearch) () (by decide) (by decide)
      (threeItems.serves_answer .opensearch ⟨[]⟩) hkeys
  exact ⟨pages, hwalk, by rw [hcount]; decide, hwhole⟩

end Searching

end StacCatalog
