import StacCatalog.Proofs.Paging.Collections
import StacCatalog.Proofs.Paging.Items

/-!
# What a page reads of its hits
-/

namespace StacCatalog

open Program List Outcome Json Searching Collections

variable {library : Library} {hits : List Json} {backend : Backend} {next v : Json} {r : Request}
    {extensions : List String} {limit : Nat}
  {ctx : Context} {fault : Fault}

theorem Json.item_of_lookup {value member : Json} {name : String}
    (h : value.lookup name = .ok member) (htruthy : member.truthy = true) :
    value.item name = .ok member := by
  cases value with
  | obj fields =>
    cases hget : Fields.get? fields name with
    | none =>
      simp only [lookup, Fields.getD, hget, Option.getD_none, Except.ok.injEq] at h
      rw [← h] at htruthy
      cases htruthy
    | some found =>
      simp only [lookup, Fields.getD, hget, Option.getD_some, Except.ok.injEq] at h
      rw [item_of_get? hget, h]
  | _ => cases h

/-! ### Readers -/

variable {nth : Reader}

namespace Reader

/-- The reader is right at the positions that a list has. -/
def Faithful (nth : Reader) : Prop :=
  ∀ (items : List Json) (i : Nat) (value : Json), items[i]? = some value → nth items i = .ok value

theorem faithful_nthInt : Faithful nthInt := by
  intro items i value h
  have hpos : ¬ (i : Int) < 0 := by omega
  simp only [nthInt, if_neg hpos, Int.natAbs_natCast, h]

/-- A reader that fails at positions before the first. -/
def strict (fault : Fault) : Reader := fun items n =>
  if n < 0 then .error fault else nthInt items n

theorem faithful_strict (fault : Fault) : Faithful (strict fault) := by
  intro items i value h
  have hpos : ¬ (i : Int) < 0 := by omega
  rw [strict, if_neg hpos]
  exact faithful_nthInt items i value h

/-- The last part of what must be a sequence, read at the position before its length. -/
def last (nth : Reader) (value : Json) : Outcome Json :=
  match value.sequence? with
  | some items => nth items (items.length - 1)
  | none => value.last

theorem last_nthInt (value : Json) : last nthInt value = value.last := by
  have hlast (items : List Json) : nthInt items (items.length - 1) = nthInt items (-1) := by
    cases items with
    | nil => rfl
    | cons first rest =>
      have hpos : ¬ (((first :: rest).length : Int) - 1 < 0) := by
        rw [length_cons]
        omega
      have habs : (((first :: rest).length : Int) - 1).natAbs = (first :: rest).length - 1 := by
        rw [length_cons]
        omega
      simp only [nthInt, if_neg hpos, habs]
      simp
  cases value with
  | arr items => exact hlast items
  | str s => exact hlast _
  | _ => rfl

theorem last_arr (h : nth.Faithful) (items : List Json) (value : Json) :
    last nth (.arr (items ++ [value])) = .ok value := by
  have hposition : (((items ++ [value]).length : Int) - 1) = (items.length : Nat) := by
    rw [length_append, length_singleton]
    omega
  show nth (items ++ [value]) (((items ++ [value]).length : Int) - 1) = _
  rw [hposition]
  exact h _ _ _ (by simp)

end Reader

/-- A program that gives a page and the token of the next one reads its hits, through some way of
reading, only where they are; and a token that it gives is that of the hit whose item it gives last.
-/
structure KeepsToPage {σ : Type} (answer : Answering σ) (s : σ)
    (program : Program (List Json × Json)) (reading : Reader → Program (List Json × Json))
    (hits : List Json) (itemOf tokenOf : Json → Outcome Json) : Prop where
  reads : reading nthInt = program
  inside : ∀ nth : Reader, nth.Faithful → (reading nth).run answer s = program.run answer s
  token : ∀ page next t, program.run answer s = (.ok (page, next), t) → next ≠ .null →
    ∃ hit item, hits[page.length - 1]? = some hit ∧ page.getLast? = some item ∧
      itemOf hit = .ok item ∧ tokenOf hit = .ok next

/-! ### Pages of collections -/

namespace Collections

variable {σ : Type} {answer : Answering σ}

/-- The token of the page after a page of hits, read in a given way. -/
def nextTokenBy (nth : Reader) (backend : Backend) (hits : Json) : Outcome Json := do
  keyToken backend (← nth.last hits)

def pageBy (ctx : Context) (token limit : Json) (r : Request) (nth : Reader) :
    Program (List Json × Json) :=
  pageWith (nextTokenBy nth ctx.backend) ctx token limit r

theorem nextTokenBy_nthInt (backend : Backend) (hits : Json) :
    nextTokenBy nthInt backend hits = nextToken backend hits := by
  rw [nextTokenBy, Reader.last_nthInt]
  rfl

theorem pageBy_nthInt (ctx : Context) (token limit : Json) (r : Request) :
    pageBy ctx token limit r nthInt = page ctx token limit r := by
  rw [page, pageBy, funext (nextTokenBy_nthInt ctx.backend)]

def tokenOf (hit : Json) : Outcome Json := do
  (← hit.item "sort").nth 0

theorem nextTokenBy_of_faithful (h : nth.Faithful) (backend : Backend) (hne : hits ≠ []) :
    nextTokenBy nth backend (.arr hits) = nextToken backend (.arr hits) := by
  rw [← nextTokenBy_nthInt, ← dropLast_append_getLast hne, nextTokenBy, nextTokenBy, nth.last_arr h,
    Reader.last_arr Reader.faithful_nthInt]

theorem tokenOf_of_nextToken {hit : Json} (h : nextToken backend (.arr (hits ++ [hit])) = .ok next)
    (hne : next ≠ .null) : tokenOf hit = .ok next := by
  have hlast : (arr (hits ++ [hit])).last = .ok hit := by
    rw [last_arr (by simp), getLast_append_singleton]
  rw [nextToken, hlast, ok_bind] at h
  cases backend with
  | elasticsearch => exact h
  | opensearch =>
    obtain ⟨key, hkey, htoken⟩ := bind_eq_ok.mp h
    split at htoken
    · rename_i htruthy
      rwa [tokenOf, item_of_lookup hkey htruthy]
    · cases htoken
      exact absurd rfl hne

theorem ofHits_ok {next : Json → Outcome Json} {shown : List Json}
    (h : hits.mapM (ofHit library r extensions) = .ok shown) :
    ofHits library next r extensions (.int limit) hits =
      if hits.length = limit then (next (.arr hits)).map fun token => (shown, token)
        else .ok (shown, .null) := by
  have hlength : shown.length = hits.length := (mapM_eq_ok.mp h).length_eq.symm
  rw [ofHits, h, ok_bind, same_int, hlength]
  by_cases hfull : hits.length = limit
  · rw [if_pos (by simpa using hfull), if_pos hfull]
    cases next (.arr hits) <;> rfl
  · rw [if_neg (by simpa using hfull), if_neg hfull]
    rfl

/-- What is made of the hits of a page of at least one is the same for all faithful readers. -/
theorem ofHits_of_faithful (library : Library) (h : nth.Faithful) (backend : Backend) (r : Request)
    (extensions : List String) (hl : 1 ≤ limit) (hits : List Json) :
    ofHits library (nextTokenBy nth backend) r extensions (.int limit) hits =
      ofHits library (nextToken backend) r extensions (.int limit) hits := by
  cases hmap : hits.mapM (ofHit library r extensions) with
  | error fault => rw [ofHits, ofHits, hmap, error_bind, error_bind]
  | ok shown =>
    rw [ofHits_ok hmap, ofHits_ok hmap]
    by_cases hfull : hits.length = limit
    · have hne : hits ≠ [] := length_pos_iff.mp (by omega)
      rw [nextTokenBy_of_faithful h backend hne]
    · rw [if_neg hfull, if_neg hfull]

/-- A token that is made of the hits of a page of at least one is that of the last hit, which is
shown last. -/
theorem exists_of_ofHits (hl : 1 ≤ limit) {shown : List Json}
    (h : ofHits library (nextToken backend) r extensions (.int limit) hits = .ok (shown, next))
    (hne : next ≠ .null) :
    ∃ hit item, hits[shown.length - 1]? = some hit ∧ shown.getLast? = some item ∧
      ofHit library r extensions hit = .ok item ∧ tokenOf hit = .ok next := by
  obtain ⟨made, hmap, -⟩ := bind_eq_ok.mp h
  rw [ofHits_ok hmap] at h
  split at h
  · rename_i hfull
    have hhits : hits ≠ [] := length_pos_iff.mp (by omega)
    obtain ⟨front, hit, rfl⟩ := hits.eq_nil_or_concat'.resolve_left hhits
    obtain ⟨token, htoken, h⟩ := bind_eq_ok.mp h
    cases h
    obtain ⟨before, item, rfl, hitem⟩ := exists_last_of_forall₂ (mapM_eq_ok.mp hmap)
    have hlength := (mapM_eq_ok.mp hmap).length_eq
    refine ⟨hit, item, ?_, getLast?_concat, hitem, tokenOf_of_nextToken htoken hne⟩
    rw [← hlength]
    simp
  · cases h
    exact absurd rfl hne

/-- **A listing of at least one** keeps to its hits. -/
theorem keepsToPage_page {token : Json} {s : σ}
    (hreply : (answer s
          (.listCollections ctx.naming.collections (.int limit)
            (if token.truthy then some token else none))).1 = .value v)
    (hlists : ListsHits v hits) (hl : 1 ≤ limit) :
    KeepsToPage answer s (page ctx token (.int limit) r) (pageBy ctx token (.int limit) r) hits
      (ofHit ctx.library r ctx.extensions) tokenOf := by
  have hrun : (page ctx token (.int limit) r).run answer s = _ := run_pageWith _ r hreply hlists
  refine ⟨pageBy_nthInt ctx token _ r, fun nth hnth => ?_, fun shown next t hpage hne => ?_⟩
  · rw [pageBy, run_pageWith _ r hreply hlists, hrun, ofHits_of_faithful ctx.library hnth
      ctx.backend r ctx.extensions hl hits]
  · rw [hrun, Prod.mk.injEq] at hpage
    exact exists_of_ofHits hl hpage.1 hne

/-- A listing of none is full at once, and reads a hit that is not there. -/
theorem run_pageBy_zero {token : Json} {s : σ}
    (hreply : (answer s
          (.listCollections ctx.naming.collections (.int 0)
            (if token.truthy then some token else none))).1 = .value v)
    (hlists : ListsHits v []) (hnth : nth [] (-1) = .error fault) :
    ∃ t, (pageBy ctx token (.int 0) r nth).run answer s = (.error fault, t) := by
  have htoken : nextTokenBy nth ctx.backend (.arr []) = .error fault := by
    have hlast : nth.last (.arr []) = .error fault := hnth
    rw [nextTokenBy, hlast, error_bind]
  have hhits : ofHits ctx.library (nextTokenBy nth ctx.backend) r ctx.extensions (.int 0) [] =
      .error fault := by
    show (nextTokenBy nth ctx.backend (.arr []) >>= _) = _
    rw [htoken, error_bind]
  exact ⟨_, by rw [pageBy, run_pageWith _ r hreply hlists, hhits]⟩

end Collections

/-! ### Pages of items -/

namespace Searching

variable {σ : Type} {answer : Answering σ}

def readItemsBy (ctx : Context) (search : Search)
    (limit sort collections ignoreUnavailable token : Json) (nth : Reader) :
    Program (List Json × Json) :=
  readItemsWith (nextTokenBy nth) ctx search limit sort collections ignoreUnavailable token

theorem readItemsBy_nthInt (ctx : Context) (search : Search)
    (limit sort collections ignoreUnavailable token : Json) :
    readItemsBy ctx search limit sort collections ignoreUnavailable token nthInt =
      readItems ctx search limit sort collections ignoreUnavailable token :=
  (readItems_eq ..).symm

/-- The token that a hit stands for. -/
def tokenOf (hit : Json) : Outcome Json := do
  return .str (← Token.ofKey (← hit.item "sort"))

theorem tokenOf_of_keyToken {hit : Json} (h : keyToken hit = .ok next) (hne : next ≠ .null) :
    tokenOf hit = .ok next := by
  obtain ⟨key, hkey, htoken⟩ := bind_eq_ok.mp h
  split at htoken
  · rename_i htruthy
    rwa [tokenOf, item_of_lookup hkey htruthy]
  · cases htoken
    exact absurd rfl hne

/-- The hit before the end of a page of at least one can be read by every faithful reader. -/
theorem read_before_end (h : nth.Faithful) (hl : 1 ≤ limit) (hlt : limit < hits.length) :
    nth hits (limit - 1) = .ok (hits[limit - 1]) := by
  have hposition : (limit : Int) - 1 = (limit - 1 : Nat) := by omega
  rw [hposition]
  exact h hits (limit - 1) _ (getElem?_eq_getElem _)

theorem ofHits_of_faithful (h : nth.Faithful) (v : Json) (hl : 1 ≤ limit)
    (hw : hits.length ≤ 10000) :
    ofHits (nextTokenBy nth) v limit hits = ofHits (nextTokenBy nthInt) v limit hits := by
  have htoken : nextTokenBy nth (.arr hits) (.int limit) =
      nextTokenBy nthInt (.arr hits) (.int limit) := by
    by_cases hlt : limit < hits.length
    · rw [nextTokenBy_of_lt nth hlt hw, nextTokenBy_of_lt _ hlt hw, read_before_end h hl hlt,
        read_before_end Reader.faithful_nthInt hl hlt]
    · rw [nextTokenBy_of_le nth (Nat.not_lt.mp hlt), nextTokenBy_of_le _ (Nat.not_lt.mp hlt)]
  rw [ofHits, ofHits, htoken]

theorem eq_null_of_ofHits {items : List Json} (hle : hits.length ≤ limit)
    (h : ofHits (nextTokenBy nth) v limit hits = .ok (items, next)) : next = .null := by
  rw [ofHits, nextTokenBy_of_le nth hle, ok_bind] at h
  obtain ⟨n, -, hrest⟩ := bind_eq_ok.mp h
  obtain ⟨shown, -, hpair⟩ := bind_eq_ok.mp hrest
  cases hpair
  rfl

theorem exists_of_ofHits {items : List Json} (hl : 1 ≤ limit) (hw : hits.length ≤ 10000)
    (h : ofHits (nextTokenBy nthInt) v limit hits = .ok (items, next)) (hne : next ≠ .null) :
    ∃ hit item, hits[items.length - 1]? = some hit ∧ items.getLast? = some item ∧
      hit.item "_source" = .ok item ∧ tokenOf hit = .ok next := by
  have hlt : limit < hits.length := Nat.not_le.mp fun hle => hne (eq_null_of_ofHits hle h)
  obtain ⟨token, htoken, hrest⟩ := bind_eq_ok.mp h
  obtain ⟨n, -, hrest⟩ := bind_eq_ok.mp hrest
  obtain ⟨shown, hmap, hpair⟩ := bind_eq_ok.mp hrest
  cases hpair
  rw [nextTokenBy_of_lt _ hlt hw, read_before_end Reader.faithful_nthInt hl hlt, ok_bind] at htoken
  have hpage := mapM_eq_ok.mp hmap
  have hlength : items.length = limit := by
    rw [← hpage.length_eq, length_take]
    omega
  have htake : hits.take limit = hits.take (limit - 1) ++ [hits[limit - 1]] := by
    rw [← take_succ_eq_append_getElem, Nat.sub_add_cancel hl]
  rw [htake] at hpage
  obtain ⟨before, item, rfl, hitem⟩ := exists_last_of_forall₂ hpage
  refine ⟨hits[limit - 1], item, ?_, getLast?_concat, hitem, tokenOf_of_keyToken htoken hne⟩
  rw [hlength]
  exact getElem?_eq_getElem _

theorem ofHits_zero (hne : hits ≠ []) (hw : hits.length ≤ 10000)
    (hnth : nth hits (-1) = .error fault) : ofHits (nextTokenBy nth) v 0 hits = .error fault := by
  have htoken : nextTokenBy nth (.arr hits) (.int (0 : Nat)) = .error fault := by
    rw [nextTokenBy_of_lt nth (length_pos_iff.mpr hne) hw]
    show nth hits (-1) >>= keyToken = _
    rw [hnth, error_bind]
  rw [ofHits, htoken, error_bind]

/-- **A search for at least one** keeps to its hits, and so does one that finds nothing. -/
theorem keepsToPage_readItems {search : Search} {sort collections ignoreUnavailable token : Json}
    {s t : σ}
    (hrun : ∀ nth,
      (readItemsBy ctx search (.int limit) sort collections ignoreUnavailable token nth).run answer
          s = (ofHits (nextTokenBy nth) v limit hits, t))
    (hw : hits.length ≤ 10000) (hl : 1 ≤ limit ∨ hits = []) :
    KeepsToPage answer s
      (readItems ctx search (.int limit) sort collections ignoreUnavailable token)
      (readItemsBy ctx search (.int limit) sort collections ignoreUnavailable token) hits
      (fun hit => hit.item "_source") tokenOf := by
  refine ⟨readItemsBy_nthInt .., fun nth hnth => ?_, fun items next u hpage hne => ?_⟩
  · rw [← readItemsBy_nthInt, hrun, hrun]
    rcases hl with hl | rfl
    · rw [ofHits_of_faithful hnth v hl hw]
    · rw [ofHits, ofHits, nextTokenBy_of_le nth (Nat.zero_le limit),
        nextTokenBy_of_le _ (Nat.zero_le limit)]
  · rw [← readItemsBy_nthInt, hrun, Prod.mk.injEq] at hpage
    rcases hl with hl | rfl
    · exact exists_of_ofHits hl hw hpage.1 hne
    · exact absurd (eq_null_of_ofHits (Nat.zero_le limit) hpage.1) hne

end Searching

/-! ### Both -/

/-- Two readers that fail differently before the first position tell a page apart that reads there.
-/
theorem KeepsToPage.not_of_strict {σ : Type} {answer : Answering σ} {s : σ}
    {program : Program (List Json × Json)} {reading : Reader → Program (List Json × Json)}
    {itemOf tokenOf : Json → Outcome Json}
    (h : ∀ fault, ∃ t, (reading (Reader.strict fault)).run answer s = (.error fault, t)) :
    ¬ KeepsToPage answer s program reading hits itemOf tokenOf := by
  intro hkeeps
  obtain ⟨t, ht⟩ := h .absent
  obtain ⟨u, hu⟩ := h (.unset "position")
  rw [hkeeps.inside _ (Reader.faithful_strict _)] at ht hu
  rw [ht] at hu
  cases hu

/-- **A page reads only the hits that it gets, and gives the token of the last one that it shows,
exactly if it may hold something.** This holds for both backends and whatever the database holds, as
long as it gives no more hits than were asked for. A listing of none fails; a search for none that
finds a hit gives the token of that hit, and no item. -/
theorem keepsToPage_iff {σ : Type} (ctx : Context) (limit : Nat) (answer : Answering σ)
    (s : σ) :
    (∀ (token v : Json) (r : Request) (hits : List Json),
      (answer s
        (.listCollections ctx.naming.collections (.int limit)
          (if token.truthy then some token else none))).1 = .value v →
      ListsHits v hits → hits.length ≤ limit →
      (KeepsToPage answer s (Collections.page ctx token (.int limit) r)
          (Collections.pageBy ctx token (.int limit) r) hits
          (Collections.ofHit ctx.library r ctx.extensions) Collections.tokenOf ↔ 1 ≤ limit) ∧
      (limit = 0 →
        ∃ t, (Collections.page ctx token (.int limit) r).run answer s =
          (.error (.outOfRange "list index out of range"), t))) ∧
    ∀ (search : Search) (sort collections ignoreUnavailable token after v : Json)
        (indices : String) (hits : List Json),
      Searching.startOf token = .ok after →
      ctx.naming.indices collections = .ok indices →
      (answer s
        (.findItems ⟨indices, ignoreUnavailable, search,
            if sort.truthy then sort else .obj SortOrder.standard, after,
            .int (min (limit + 1) 10000 : Nat)⟩)).1 = .value v →
      ListsHits v hits → hits.length ≤ min (limit + 1) 10000 →
      (KeepsToPage answer s
          (Searching.readItems ctx search (.int limit) sort collections ignoreUnavailable token)
          (Searching.readItemsBy ctx search (.int limit) sort collections ignoreUnavailable token)
          hits (fun hit => hit.item "_source") Searching.tokenOf ↔ 1 ≤ limit ∨ hits = []) ∧
      (limit = 0 →
        ∀ hit next n, hits = [hit] → Searching.keyToken hit = .ok next → Searching.total v = .ok n →
          ∃ t,
            (Searching.readItems ctx search (.int limit) sort collections ignoreUnavailable
              token).run answer s = (.ok ([], next), t)) := by
  constructor
  · intro token v r hits hreply hlists hlength
    refine ⟨⟨fun hkeeps => ?_, keepsToPage_page hreply hlists⟩, ?_⟩
    · by_contra hzero
      obtain rfl : limit = 0 := by omega
      obtain rfl : hits = [] := List.length_eq_zero_iff.mp (by omega)
      exact KeepsToPage.not_of_strict (fun fault => run_pageBy_zero hreply hlists rfl) hkeeps
    · rintro rfl
      obtain rfl : hits = [] := List.length_eq_zero_iff.mp (by omega)
      rw [← pageBy_nthInt]
      exact run_pageBy_zero hreply hlists rfl
  · intro search sort collections ignoreUnavailable token after v indices hits hafter
      hindices hreply hlists hlength
    have hw : hits.length ≤ 10000 := by omega
    obtain ⟨t, hwith⟩ := run_readItemsWith hafter hindices hreply hlists
    have hrun : ∀ nth, (Searching.readItemsBy ctx search (.int limit) sort collections
        ignoreUnavailable token nth).run
        answer s = (Searching.ofHits (Searching.nextTokenBy nth) v limit hits, t) :=
          fun nth => hwith _
    refine ⟨⟨fun hkeeps => ?_, keepsToPage_readItems hrun hw⟩, ?_⟩
    · by_contra hzero
      rw [not_or] at hzero
      obtain rfl : limit = 0 := by omega
      refine KeepsToPage.not_of_strict (fun fault => ⟨t, ?_⟩) hkeeps
      rw [hrun, ofHits_zero hzero.2 hw rfl]
    · rintro rfl hit next n rfl hkey htotal
      have hread : Json.nthInt [hit] ((0 : Nat) - 1) = .ok hit := rfl
      refine ⟨t, ?_⟩
      rw [← readItemsBy_nthInt, hrun, Searching.ofHits, nextTokenBy_of_lt _ Nat.one_pos hw, htotal,
        hread, Outcome.ok_bind, hkey]
      rfl

def someHit : Json :=
  .obj [("_source", .single "id" (.str "a")), ("sort", .arr [.str "a"])]

/-- A database that finds one hit, if it is asked for at least one. -/
def answerSomeHit (u : Unit) (c : Call) : Reply × Unit :=
  let hits (size : Json) : Json := .arr (if size = .int 0 then [] else [someHit])
  let found (size : Json) : Reply := .value (.single "hits" (.obj [("hits", hits size),
    ("total", .obj [("relation", .str "eq"), ("value", .int 1)])]))
  match c with
  | .listCollections _ size _ => (found size, u)
  | .findItems p => (found p.size, u)
  | _ => (.value (.obj []), u)

/-- A listing of one keeps to its hit; with a limit of none, a listing fails and a search gives a
token without an item. -/
theorem keepsToPage_iff_someHit :
    KeepsToPage answerSomeHit () (Collections.page default .null (.int 1) default)
      (Collections.pageBy default .null (.int 1) default) [someHit]
      (Collections.ofHit default default []) Collections.tokenOf ∧
    (∃ t, (Collections.page default .null (.int 0) default).run answerSomeHit () =
      (.error (.outOfRange "list index out of range"), t)) ∧
    ∃ t, (Searching.readItems default ⟨[]⟩ (.int 0) .null .null .null .null).run answerSomeHit () =
      (.ok ([], .str "WyJhIl0="), t) := by
  have hkey : Searching.keyToken someHit = .ok (.str "WyJhIl0=") := by decide +kernel
  refine ⟨?_, ?_, ?_⟩
  · exact ((keepsToPage_iff default 1 answerSomeHit ()).1 .null _ default [someHit] rfl
      ⟨_, rfl, rfl⟩ le_rfl).1.mpr
      le_rfl
  · exact ((keepsToPage_iff default 0 answerSomeHit ()).1 .null _ default [] rfl
      ⟨_, rfl, rfl⟩ le_rfl).2 rfl
  · exact ((keepsToPage_iff default 0 answerSomeHit ()).2 ⟨[]⟩ .null .null .null .null .null _ _
      [someHit] rfl rfl rfl
      ⟨_, rfl, rfl⟩ le_rfl).2 rfl someHit _ (.int 1) rfl hkey rfl

end StacCatalog
