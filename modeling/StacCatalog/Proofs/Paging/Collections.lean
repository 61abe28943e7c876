import Mathlib.Data.Finset.Sort
import Mathlib.Data.String.Basic
import StacCatalog.Database.Collections
import StacCatalog.Library.Plain
import StacCatalog.Proofs.Json.Fields
import StacCatalog.Proofs.Paging.Basic
import StacCatalog.Proofs.Url.Parts

/-!
# Paging through the collections loses nothing and repeats nothing
-/

namespace StacCatalog

open Program List Outcome Json Collections

variable {library : Library} {name id : String} {r : Request} {b : Url.Parts} {rest : List String}
    {ctx : Context} {token : Json}

theorem exists_last_of_forall₂ {α β : Type} {R : α → β → Prop} {as : List α} {a : α} {bs : List β}
    (h : List.Forall₂ R (as ++ [a]) bs) : ∃ front b, bs = front ++ [b] ∧ R a b := by
  have hlast := forall₂_drop_append bs as [a] h.flip
  obtain ⟨b, rest, hb, hnil, hdrop⟩ := forall₂_cons_right_iff.mp hlast
  cases hnil
  exact ⟨bs.take as.length, b, by rw [← hdrop, take_append_drop], hb⟩

/-! ### Collections as they are answered -/

namespace Collection

/-- A stored collection: it has an id, its links can be resolved if it has any, and a document can
be built from it. -/
structure IsStored (library : Library) (id : String) (document : Fields) : Prop where
  id_eq : document.get? "id" = some (.str id)
  links : (document.getD "links").truthy = true → ∃ links, library.resolveLinks
    (document.getD "links") = .ok links
  builds : ∀ links, library.builds ((complete document).insert "links" links) = true

theorem get?_complete (fields : Fields) (h : name ∉ standard.names) :
    (complete fields).get? name = fields.get? name := by
  unfold complete
  generalize standard = entries at h
  induction entries generalizing fields with
  | nil => rfl
  | cons entry rest ih =>
    obtain ⟨hne, hrest⟩ := ne_and_not_mem_of_not_mem_cons h
    rw [foldl_cons, ih _ hrest]
    split
    · rfl
    · rw [Fields.get?_insert, if_neg hne]

theorem get?_answered (fields : Fields) (links : Json) (h : name ∉ "links" :: standard.names) :
    ((complete fields).insert "links" links).get? name = fields.get? name := by
  obtain ⟨hne, hrest⟩ := ne_and_not_mem_of_not_mem_cons h
  rw [Fields.get?_insert, if_neg hne, get?_complete fields hrest]

theorem exists_links (hbase : Url.Parts.read [] r.baseUrl.toList = .ok b) (id : String)
    (extensions : List String) : ∃ links, Links.collection r id extensions = .ok links := by
  have haddress (tail) : ∃ url, Url.join r.baseUrl ("collections/" ++ id ++ tail) = .ok url := by
    rw [String.append_assoc]
    exact Url.exists_join hbase (id ++ tail)
  obtain ⟨aggregate, haggregate⟩ := haddress "/aggregate"
  obtain ⟨aggregations, haggregations⟩ := haddress "/aggregations"
  obtain ⟨items, hitems⟩ := haddress "/items"
  obtain ⟨queryables, hqueryables⟩ := haddress "/queryables"
  obtain ⟨self, hself⟩ := haddress ""
  simp only [Links.collection, haggregate, haggregations, hitems, hqueryables,
    hself, ok_bind, pure_eq_ok]
  split_ifs <;> exact ⟨_, rfl⟩

/-- The plain library can build the answer unless the collection has a member of the reserved name.
-/
theorem builds_plain {document : Fields} (h : document.get? "self" = none) (links : Json) :
    Library.plain.builds ((complete document).insert "links" links) = true := by
  have hself : ((complete document).insert "links" links).has "self" = false := by
    rw [Fields.has_eq_false_iff, get?_answered _ _ (by decide), h]
  simp only [Library.builds, Library.plain, Option.any_some, hself, Bool.not_false]

/-- **A stored collection is answered**, with its id, whenever the address of the catalogue can be
taken apart. -/
theorem exists_ofStored {document : Fields} (h : IsStored library id document)
    (hbase : Url.Parts.read [] r.baseUrl.toList = .ok b) (extensions : List String) :
    ∃ shown, ofStored library r extensions (.obj document) = .ok shown ∧
      shown.item "id" = .ok (.str id) := by
  obtain ⟨links, hlinks⟩ := exists_links hbase (document.getD "id").display extensions
  have hbuilt (extra) :
      library.document ((complete document).insert "links" (.arr (links ++ extra))) =
      .ok ((complete document).insert "links" (.arr (links ++ extra))) := if_pos (h.builds _)
  have hid (extra) : (obj ((complete document).insert "links" (.arr (links ++ extra)))).item "id" =
      .ok (.str id) := by
    exact item_of_get? (by rw [get?_answered _ _ (by decide), h.id_eq])
  simp only [ofStored, hlinks, ok_bind, hbuilt]
  by_cases htruthy : (document.getD "links").truthy = true
  · obtain ⟨extra, hextra⟩ := h.links htruthy
    rw [if_pos htruthy, hextra]
    exact ⟨_, rfl, hid _⟩
  · rw [if_neg htruthy]
    exact ⟨_, rfl, hid []⟩

end Collection

/-! ### What a listing sends and gets -/

/-- What a request sends in its body under a name. -/
def Call.bodyAt (n : Naming) (backend : Backend) (c : Call) (name : String) : Option Json :=
  Fields.get? ((Fields.getD (c.args n backend) "body").fields?.getD []) name

theorem Call.bodyAt_size (n : Naming) (backend : Backend) (index : String) (size : Json)
    (after : Option Json) :
    (Call.listCollections index size after).bodyAt n backend "size" = some size := by
  simp [Call.bodyAt, Call.args, Fields.get?, Fields.getD, fields?, lookup_cons]

theorem Call.bodyAt_after (n : Naming) (backend : Backend) (index : String) (size : Json)
    (after : Option Json) :
    (Call.listCollections index size after).bodyAt n backend "search_after" =
      after.map fun key => .arr [key] := by
  cases after <;> simp [Call.bodyAt, Call.args, Fields.get?, Fields.getD, fields?, lookup_cons]

/-- A finite set of stored collections, none of them without an id. -/
structure Roster (library : Library) where
  ids : Finset String
  document : String → Fields
  isStored : ∀ id ∈ ids, Collection.IsStored library id (document id)
  ne_empty : "" ∉ ids

namespace Roster

variable {σ : Type}

def sorted (roster : Roster library) : List String :=
  roster.ids.sort

/-- The ids that come after a place, in ascending order; all of them if no place is given. -/
def after (roster : Roster library) (place : Option String) : List String :=
  roster.sorted.filter fun id => place.all fun last => decide (last < id)

/-- A hit that reports the collection with this id; the sort key of the hit is the id. -/
structure Reports (roster : Roster library) (id : String) (hit : Json) : Prop where
  source : hit.item "_source" = .ok (.obj (roster.document id))
  key : hit.item "sort" = .ok (.arr [.str id])

/-- A database that lists the collections by ascending id, in whatever state it is: a request gets
as many as it asks for, from the place on that it sends. Nothing is said of its answers to other
calls. -/
def Serves (roster : Roster library) (ctx : Context) (answer : Answering σ) : Prop :=
  ∀ (s : σ) (limit : Json) (token : Option Json) (size : Nat) (place : Option String),
    let c := Call.listCollections ctx.naming.collections limit token
    c.bodyAt ctx.naming ctx.backend "size" = some (.int size) →
    c.bodyAt ctx.naming ctx.backend "search_after" = place.map (fun id => .arr [.str id]) →
    ∃ v hits, (answer s c).1 = .value v ∧ ListsHits v hits ∧
      List.Forall₂ roster.Reports ((roster.after place).take size) hits

theorem after_none (roster : Roster library) : roster.after none = roster.sorted :=
  filter_eq_self.mpr fun _ _ => rfl

theorem after_some {roster : Roster library} {pre : List String}
    (h : roster.sorted = pre ++ id :: rest) : roster.after (some id) = rest := by
  have hsorted : roster.sorted.Pairwise (· < ·) := roster.ids.sortedLT_sort.pairwise
  rw [h] at hsorted
  rw [after, h]
  exact filter_of_pairwise (fun a b hlt => decide_eq_false (lt_asymm (of_decide_eq_true hlt)))
    (hsorted.imp decide_eq_true)

def hit (roster : Roster library) (id : String) : Json :=
  .obj [("_source", .obj (roster.document id)), ("sort", .arr [.str id])]

/-- A database that holds these collections and nothing else. -/
def answer (roster : Roster library) (u : Unit) (c : Call) : Reply × Unit :=
  match c with
  | .listCollections _ (.int size) none =>
    (.value (.single "hits"
      (.single "hits" (.arr ((roster.sorted.take size.toNat).map roster.hit)))), u)
  | .listCollections _ (.int size) (some (.str last)) =>
    (.value (.single "hits"
      (.single "hits" (.arr (((roster.after (some last)).take size.toNat).map roster.hit)))), u)
  | _ => (.value (.obj []), u)

theorem serves_answer (roster : Roster library) (ctx : Context) :
    roster.Serves ctx roster.answer := by
  intro u limit token size place c hsize hplace
  rw [Call.bodyAt_size, Option.some.injEq] at hsize
  rw [Call.bodyAt_after] at hplace
  have hreports : List.Forall₂ roster.Reports ((roster.after place).take size)
      (((roster.after place).take size).map roster.hit) :=
    forall₂_map_right_iff.mpr (forall₂_same.mpr fun id _ => ⟨rfl, rfl⟩)
  refine ⟨.single "hits" (.single "hits" (.arr (((roster.after place).take size).map roster.hit))),
    _, ?_, ⟨_, rfl, rfl⟩, hreports⟩
  cases place with
  | none =>
    rw [Option.map_none, Option.map_eq_none_iff] at hplace
    subst hplace hsize
    rw [after_none]
    rfl
  | some last =>
    obtain ⟨key, hkey, hlast⟩ := Option.map_eq_some_iff.mp hplace
    cases hlast
    subst hkey hsize
    rfl

end Roster

namespace Collections

variable {σ : Type} {answer : Answering σ}

/-- What is made of the hits of a page: the collections, and the token if they fill the page. -/
def ofHits (library : Library) (next : Json → Outcome Json) (r : Request) (extensions : List String)
    (limit : Json) (hits : List Json) : Outcome (List Json × Json) := do
  let shown ← hits.mapM (ofHit library r extensions)
  if (int shown.length).same
    limit then return (shown, ← next (.arr hits)) else return (shown, .null)

/-- **One page**, whatever is listed. -/
theorem run_pageWith (next : Json → Outcome Json) {limit v : Json} (r : Request) {hits : List Json}
    {s : σ}
    (hreply : (answer s
          (.listCollections ctx.naming.collections limit
            (if token.truthy then some token else none))).1 = .value v)
    (hlists : ListsHits v hits) :
    (pageWith next ctx token limit r).run answer s =
      (ofHits ctx.library next r ctx.extensions limit hits,
        (answer s
          (.listCollections ctx.naming.collections limit
            (if token.truthy then some token else none))).2) := by
  obtain ⟨found, hfound, hhits⟩ := hlists
  have hperform : (perform (.listCollections ctx.naming.collections limit
      (if token.truthy then some token else none))).run answer s = (.ok v, _) :=
        run_perform_eq_ok.mpr ⟨hreply, rfl⟩
  have helements : (arr hits).elements = .ok hits := rfl
  unfold pageWith
  rw [run_bind_ok hperform]
  simp only [run_bind_eq, run_liftM, hfound, hhits, helements, ofHits]
  cases hits.mapM (ofHit ctx.library r ctx.extensions) with
  | error fault => rfl
  | ok shown =>
    by_cases hfull : (int shown.length).same limit = true
    · simp only [ok_bind, hfull, if_true, run_bind_eq, run_liftM]
      cases next (.arr hits) <;> rfl
    · simp only [ok_bind, hfull]
      rfl

theorem nextToken_append (backend : Backend) (hits : List Json) {hit first : Json}
    {rest : List Json} (h : hit.item "sort" = .ok (.arr (first :: rest))) :
    nextToken backend (.arr (hits ++ [hit])) = .ok first := by
  have hlast : (arr (hits ++ [hit])).last = .ok hit := by
    rw [last_arr (by simp), getLast_append_singleton]
  have hfirst : (arr (first :: rest)).nth 0 = .ok first := rfl
  have htruthy : (arr (first :: rest)).truthy = true := rfl
  cases backend with
  | elasticsearch => simp only [nextToken, keyToken, hlast, h, hfirst, ok_bind]
  | opensearch =>
    simp only [nextToken, keyToken, hlast, lookup_of_item h, htruthy, hfirst, ok_bind, if_true]

end Collections

/-! ### All pages -/

namespace Roster

variable {σ : Type} {answer : Answering σ} {roster : Roster library}

/-- **What is unread.** Without a token everything is; a token is the id of a collection, and what
follows that one is unread. -/
def Unread (roster : Roster library) (rest : List String) (token : Json) : Prop :=
  (token = .null ∧ rest = roster.sorted) ∨ ∃ pre id, roster.sorted = pre ++ id :: rest ∧
    token = .str id

/-- A token is sent as the place behind which everything is unread. -/
theorem Unread.place (h : roster.Unread rest token) : ∃ place : Option String,
      (if token.truthy then some token else none) = place.map .str ∧ roster.after place = rest := by
  rcases h with ⟨rfl, rfl⟩ | ⟨pre, id, hsplit, rfl⟩
  · exact ⟨none, rfl, roster.after_none⟩
  · have hmem : id ∈ roster.ids := by
      rw [← Finset.mem_sort (· ≤ ·)]
      show id ∈ roster.sorted
      rw [hsplit]
      simp
    have hne : id ≠ "" := fun heq => roster.ne_empty (heq ▸ hmem)
    have htruthy : (str id).truthy = true := by simpa [truthy] using hne
    exact ⟨some id, if_pos htruthy, after_some hsplit⟩

theorem Unread.suffix (h : roster.Unread rest token) : ∃ pre, roster.sorted = pre ++ rest := by
  rcases h with ⟨-, rfl⟩ | ⟨pre, id, hsplit, -⟩
  · exact ⟨[], rfl⟩
  · exact ⟨pre ++ [id], by rw [hsplit, append_assoc]; rfl⟩

/-- The collection with an id, as it is answered. -/
def Shows (roster : Roster library) (r : Request) (extensions : List String) (id : String)
    (shown : Json) : Prop :=
  Collection.ofStored library r extensions (.obj (roster.document id)) = .ok shown ∧
    shown.item "id" = .ok (.str id)

theorem exists_shown (roster : Roster library) (hbase : Url.Parts.read [] r.baseUrl.toList = .ok b)
    (extensions : List String) :
    ∃ shown, List.Forall₂ (roster.Shows r extensions) roster.sorted shown := by
  have hone : ∀ id ∈ roster.sorted, ∃ shown, roster.Shows r extensions id shown := fun id hid =>
    Collection.exists_ofStored (roster.isStored id ((Finset.mem_sort _).mp hid)) hbase extensions
  obtain ⟨shown, hshown⟩ := exists_mapM fun id hid =>
    (hone id hid).imp fun _ => And.left
  refine ⟨shown, ((forall₂_and_left _ _).mpr ⟨hone, mapM_eq_ok.mp hshown⟩).imp ?_⟩
  rintro id answered ⟨⟨same, hsame⟩, hanswered⟩
  rw [hsame.1, Except.ok.injEq] at hanswered
  exact hanswered ▸ hsame

/-- **One page from anywhere in a run.** A page is the beginning of what is unread; if it is full,
its token stands for what is unread after it. -/
theorem page_step {roster : Roster ctx.library} {limit : Nat} (hl : 1 ≤ limit)
    (hserves : roster.Serves ctx answer) (hunread : roster.Unread rest token) {shown : List Json}
    (hshown : List.Forall₂ (roster.Shows r ctx.extensions) rest shown) (s : σ) :
    ∃ next t,
      (Collections.page ctx token (.int limit) r).run answer s = (.ok (shown.take limit, next), t) ∧
      (shown.length < limit → next = .null) ∧
      (limit ≤ shown.length → next ≠ .null ∧ roster.Unread (rest.drop limit) next) := by
  obtain ⟨place, hplace, hafter⟩ := hunread.place
  obtain ⟨v, hits, hreply, hlists, hreports⟩ :=
      hserves s (.int limit) (if token.truthy then some token else none)
    limit place (Call.bodyAt_size ..) (by rw [Call.bodyAt_after, hplace, Option.map_map]; rfl)
  rw [hafter] at hreports
  have hrun := run_pageWith (Collections.nextToken ctx.backend) r hreply hlists
  have hpage : hits.mapM (Collections.ofHit ctx.library r ctx.extensions) =
      .ok (shown.take limit) := by
    refine mapM_eq_ok.mpr (forall₂_through hreports.flip (forall₂_take limit hshown) ?_)
    intro hit id answered hhit hanswered
    rw [Collections.ofHit, hhit.source]
    exact hanswered.1
  have hlength : shown.length = rest.length := hshown.length_eq.symm
  rw [Collections.ofHits, hpage, ok_bind, same_int, length_take, hlength] at hrun
  rw [hlength]
  by_cases hfull : limit ≤ rest.length
  · have hne : rest.take limit ≠ [] := by
      rw [← length_pos_iff, length_take]
      omega
    obtain ⟨ids, id, hids⟩ := (rest.take limit).eq_nil_or_concat'.resolve_left hne
    have hrest : rest = ids ++ id :: rest.drop limit := by
      rw [append_cons, ← hids, take_append_drop]
    obtain ⟨pre, hpre⟩ := hunread.suffix
    rw [hids] at hreports
    obtain ⟨front, hit, rfl, hhit⟩ := exists_last_of_forall₂ hreports
    rw [if_pos (by simpa using hfull), nextToken_append ctx.backend front hhit.key] at hrun
    refine ⟨.str id, _, hrun, fun hlt => absurd hfull (Nat.not_le.mpr hlt), fun _ =>
      ⟨by simp, .inr ?_⟩⟩
    exact ⟨pre ++ ids, id, by rw [hpre, append_assoc, ← hrest], rfl⟩
  · have hlt : rest.length < limit := Nat.not_le.mp hfull
    rw [if_neg (by simpa using hfull)] at hrun
    exact ⟨.null, _, hrun, fun _ => rfl, fun hle => absurd hle hfull⟩

/-- **Paging through the collections loses nothing and repeats nothing.** Whatever finite set of
collections there is, for every limit and for both backends, reading on from page to page ends, in
one way only, after as many full pages as there are and one more: it gives every collection once, by
ascending id. -/
theorem walk_page_collections (ctx : Context) (roster : Roster ctx.library) (limit : Nat)
    (r : Request) (answer : Answering σ) (s : σ) (hl : 1 ≤ limit)
    (hbase : (Url.Parts.read [] r.baseUrl.toList).isOk = true)
    (hserves : roster.Serves ctx answer) :
    ∃ pages, Walk answer (fun token => Collections.page ctx token (.int limit) r) .null s pages ∧
      (∀ others,
        Walk answer (fun token => Collections.page ctx token (.int limit) r) .null s others →
        others = pages) ∧
      pages.length = roster.ids.card / limit + 1 ∧
      List.Forall₂ (roster.Shows r ctx.extensions) roster.ids.sort pages.flatten := by
  obtain ⟨b, hbase⟩ := Outcome.exists_of_isOk hbase
  obtain ⟨shown, hshown⟩ := roster.exists_shown hbase ctx.extensions
  have hlength : shown.length = roster.ids.card := by
    rw [← hshown.length_eq]
    exact Finset.length_sort _
  obtain ⟨pages, hwalk, hcount, hflatten⟩ := Walk.of_full_step hl
    (fun rest token => ∃ ids, roster.Unread ids token ∧ List.Forall₂ (roster.Shows r ctx.extensions)
      ids rest) (by
      rintro rest token s ⟨ids, hunread, hids⟩
      obtain ⟨next, t, hrun, hend, hmore⟩ := page_step hl hserves hunread hids s
      refine ⟨next, t, hrun, hend, fun hle =>
        ⟨(hmore hle).1, _, (hmore hle).2, List.forall₂_drop limit hids⟩⟩)
    shown .null s ⟨roster.sorted, Or.inl ⟨rfl, rfl⟩, hshown⟩
  refine ⟨pages, hwalk, fun others h => hwalk.unique h, ?_, ?_⟩
  · rw [hcount, hlength]
  · rw [hflatten]
    exact hshown

def twoCollections : Roster .plain where
  ids := {"a", "é"}
  document id := [("id", .str id), ("links", .arr [.obj [("rel", .str "license")]])]
  isStored _ _ := ⟨rfl, fun _ => ⟨_, rfl⟩, Collection.builds_plain rfl⟩
  ne_empty := by decide

/-- Two collections are two full pages of one, and an empty one. -/
theorem walk_page_collections_two :
    let ctx : Context := ⟨.opensearch, .standard, [], default, false, [], .plain⟩
    let r := { (default : Request) with baseUrl := "https://example.org/" }
    (Url.Parts.read [] r.baseUrl.toList).isOk = true ∧
    twoCollections.Serves ctx twoCollections.answer ∧
      ∃ pages, Walk twoCollections.answer (fun token => Collections.page ctx token (.int 1) r)
        .null () pages ∧ pages.length = 3 ∧ List.Forall₂ (twoCollections.Shows r ctx.extensions)
        twoCollections.ids.sort pages.flatten := by
  intro ctx r
  have hbase : (Url.Parts.read [] r.baseUrl.toList).isOk = true := by decide
  have hserves := twoCollections.serves_answer ctx
  obtain ⟨pages, hwalk, -, hcount, hflatten⟩ :=
    walk_page_collections ctx twoCollections 1 r twoCollections.answer () le_rfl hbase hserves
  exact ⟨hbase, hserves, pages, hwalk, hcount.trans (by decide), hflatten⟩

end Roster

end StacCatalog
