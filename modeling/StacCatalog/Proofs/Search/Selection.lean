import StacCatalog.Proofs.Items.Race
import StacCatalog.Proofs.Search.Criteria

/-!
# Searching and aggregating select the same items
-/

namespace StacCatalog

open Program List Outcome Aggregation Json

variable {σ : Type} {offered : List Json} {asked : List String} {baseUrl indices : String}
  {request : AggregateApi.AggregateRequest} {collection searched : Json} {r : Request}
  {query : Option Query} {fault : Fault}

/-! ### Aggregations that are supported -/

namespace Criteria

open AggregateApi

variable {p : Criteria} {answer : Answering σ} {ctx : Context} {s : σ}

/-- The aggregation of a name is among those that are offered. -/
def Offered (offered : List Json) (name : String) : Prop :=
  ∃ entry ∈ offered, entry.item "name" = .ok (.str name)

/-- Aggregations that all have names. -/
def Named (offered : List Json) : Prop :=
  ∀ entry ∈ offered, ∃ name, entry.item "name" = .ok (.str name)

/-- All that is asked for is offered, and so everything that is offered has a name. -/
def Fit (asked : List String) (offered : List Json) : Prop :=
  ∀ name ∈ asked, Offered offered name ∧ ∀ entry ∈ offered, ∃ name, entry.item "name" = .ok name

section

variable (answer : Answering σ) (ctx : Context) (s : σ)

/-- The database has a collection. -/
def Stored (id : String) : Prop :=
  ∃ found, (answer s (.exists ctx.naming.collections (.str id))).1 = .value found ∧
    found.truthy = true

/-- What the document of a collection offers, or what all collections offer if it speaks of nothing.
-/
def Own (id : String) (value : Json) : Prop :=
  ∃ found document, (answer s (.get ctx.naming.collections (.str id))).1 = .value found ∧
    found.item "_source" = .ok document ∧ document.lookupD "aggregations"
      (.arr standard) = .ok value

/-- A collection that is stored, and supports the aggregations of the given names. -/
structure Supports (baseUrl : String) (asked : List String) (id : String) (offered : List Json) :
    Prop where
  stored : Stored answer ctx s id
  document : Own answer ctx s id (.arr offered)
  named : Named offered
  offers : ∀ name ∈ asked, Offered (offered ++ standard) name
  links : ∃ links, offerLinks baseUrl (.str id) = .ok links

/-- What is asked for is supported by each collection, or by the catalogue if there are no
collections. -/
def Supported (p : Criteria) (baseUrl : String) (asked : List String) : Prop :=
  match p.collections with
  | none | some [] =>
    (∀ name ∈ asked, Offered standard name) ∧ ∃ links, offerLinks baseUrl .null = .ok links
  | some ids => ∀ id ∈ ids, ∃ offered, Supports answer ctx s baseUrl asked id offered

/-- The database says whether a collection is stored, and if it is, it offers aggregations with
names. -/
def Described (id : String) : Prop :=
  ∃ found, (answer s (.exists ctx.naming.collections (.str id))).1 = .value found ∧
    (found.truthy = true → ∃ own, Own answer ctx s id (.arr own) ∧ Named own)

/-- What is known of a collection: what the database says of it, and that links to it can be made.
-/
structure Known (baseUrl id : String) : Prop where
  described : Described answer ctx s id
  links : ∃ links, offerLinks baseUrl (.str id) = .ok links

/-- What is known of all collections, or of the catalogue if there are none. -/
structure Ready (baseUrl : String) (ids : List String) : Prop where
  root : ids = [] → ∃ links, offerLinks baseUrl .null = .ok links
  known : ∀ id ∈ ids, Known answer ctx s baseUrl id

/-- A collection stops a request: it is missing, or does not offer all that is asked for. -/
def StopsAt (asked : List String) (id : String) (fault : Fault) : Prop :=
  ¬ Stored answer ctx s id ∧ fault = .notFound (.parent (.str id)) ∨
    (∃ own, Own answer ctx s id (.arr own) ∧ ¬ ∀ name ∈ asked, Offered (own ++ standard) name) ∧
      ∃ text, fault = .http 400 text

/-- What is offered to a request about some collections: what the last of them offers, and what all
do. -/
def OfferedTo (default : List Json) (ids : List String) (offered : List Json) : Prop :=
  match ids.getLast? with
  | none => offered = default
  | some id => ∃ own, Own answer ctx s id (.arr own) ∧ offered = own ++ standard

/-- All that is asked for is offered, by the catalogue or by each of the collections. -/
structure Covered (asked ids : List String) : Prop where
  standard : ids = [] → ∀ name ∈ asked, Offered Aggregation.standard name
  offered : ∀ id ∈ ids, ∀ own, Own answer ctx s id (.arr own) → ∀ name ∈ asked,
    Offered (own ++ Aggregation.standard) name

/-- A request stops: a collection is missing, or not all that is asked for is offered. -/
def Stops (asked ids : List String) (fault : Fault) : Prop :=
  (∃ id ∈ ids, ¬ Stored answer ctx s id ∧ fault = .notFound (.parent (.str id))) ∨
    ¬ Covered answer ctx s asked ids ∧ ∃ text, fault = .http 400 text

/-- Collections that let a request pass, with what is offered to it. -/
structure Passes (asked ids : List String) (offered : List Json) : Prop where
  offeredTo : OfferedTo answer ctx s Aggregation.standard ids offered
  fit : Fit asked offered
  stored : ∀ id ∈ ids, Stored answer ctx s id
  covered : Covered answer ctx s asked ids

end

theorem isOffered_eq_ok {keyed found : Bool} {name : String}
    (h : isOffered keyed offered (.str name) = .ok found) :
    (∀ entry ∈ offered, ∃ name, entry.item "name" = .ok name) ∧
    (found = true ↔ Offered offered name) := by
  obtain ⟨names, hnames, h⟩ := bind_eq_ok.mp h
  have hall := mapM_eq_ok.mp hnames
  obtain rfl : names.any (str name).same = found := by
    cases keyed with
    | false => exact Except.ok.inj h
    | true =>
      obtain ⟨_, -, h⟩ := bind_eq_ok.mp h
      exact Except.ok.inj h
  refine ⟨fun entry hentry => ?_, ?_⟩
  · obtain ⟨name, -, hname⟩ := exists_right_of_forall₂ hall hentry
    exact ⟨name, hname⟩
  · simp only [any_eq_true, same_str, exists_eq_right]
    constructor
    · intro hname
      exact exists_left_of_forall₂ hall hname
    · rintro ⟨entry, hentry, hitem⟩
      obtain ⟨found, hfound, heq⟩ := exists_right_of_forall₂ hall hentry
      exact Except.ok.inj (heq.symm.trans hitem) ▸ hfound

theorem exists_isOffered (hnamed : Named offered) (keyed : Bool) (name : String) :
    ∃ found, isOffered keyed offered (.str name) = .ok found := by
  choose! nameOf hname using hnamed
  have hnames : offeredNames offered = .ok (offered.map (str ∘ nameOf)) :=
    mapM_eq_ok.mpr (forall₂_map_right_iff.mpr (forall₂_same.mpr hname))
  have hkeys : (offered.map (str ∘ nameOf)).forM hashable = .ok () := by
    clear hname hnames
    induction offered with
    | nil => rfl
    | cons entry rest ih => exact ih
  unfold isOffered
  rw [hnames, ok_bind, hkeys]
  cases keyed <;> exact ⟨_, rfl⟩

/-- **Names are checked** against those that are offered. -/
theorem settles_checkNames (keyed : Bool) (offered : List Json) (place : String)
    (asked : List String) :
    Settles answer Call.Look
      (MonadLiftT.monadLift (checkNames keyed offered place (asked.map .str)) : Program Unit) s
      (fun _ => Fit asked offered)
      fun fault => Named offered →
        ¬ (∀ name ∈ asked, Offered offered name) ∧ ∃ text, fault = .http 400 text := by
  induction asked with
  | nil => exact .pure nofun
  | cons name rest ih =>
    rw [map_cons, checkNames]
    cases hfound : isOffered keyed offered (.str name) with
    | error fault =>
      refine .fail fun hnamed => ?_
      obtain ⟨found, hok⟩ := exists_isOffered hnamed keyed name
      cases hfound.symm.trans hok
    | ok found =>
      obtain ⟨hitems, hiff⟩ := isOffered_eq_ok hfound
      cases found with
      | false =>
        exact .fail fun _ =>
          ⟨fun hall => Bool.noConfusion (hiff.mpr (hall name mem_cons_self)), _, rfl⟩
      | true =>
        rcases ih with ⟨_, hrest, hfit⟩ | ⟨fault, hrest, hfault⟩
        · exact .inl ⟨_, hrest, forall_mem_cons.mpr ⟨⟨hiff.mp rfl, hitems⟩, hfit⟩⟩
        · exact .inr ⟨fault, hrest, fun hnamed => (hfault hnamed).imp_left fun hno hall =>
            hno (forall_mem_cons.mp hall).2⟩

theorem Own.unique {id : String} {value other : Json} (h : Own answer ctx s id value)
    (h' : Own answer ctx s id other) : value = other := by
  obtain ⟨found, document, hfound, hdocument, hvalue⟩ := h
  obtain ⟨found', document', hfound', hdocument', hother⟩ := h'
  cases hfound.symm.trans hfound'
  cases hdocument.symm.trans hdocument'
  exact Except.ok.inj (hvalue.symm.trans hother)

/-- What is stored and described offers aggregations. -/
theorem Described.own {id : String} (h : Described answer ctx s id)
    (hstored : Stored answer ctx s id) : ∃ own, Own answer ctx s id (.arr own) ∧ Named own := by
  obtain ⟨found, hfound, htruthy⟩ := hstored
  obtain ⟨other, hother, hown⟩ := h
  cases hfound.symm.trans hother
  exact hown htruthy

/-- **One collection** is looked at: it is stored and offers something, or it is missing. -/
theorem settles_offers (hanswer : Steady answer) (id : String) :
    Settles answer Call.Look (offers ctx (.str id)) s
      (fun value => Stored answer ctx s id ∧ Own answer ctx s id value)
      fun fault => Described answer ctx s id →
        ¬ Stored answer ctx s id ∧ fault = .notFound (.parent (.str id)) := by
  refine .bind (Q := fun _ => Stored answer ctx s id) ?_ fun _ hstored => ?_
  · refine .bind (.perform hanswer trivial (fun v hv => hv) fun fault hno hdescribed => ?_)
      fun found hfound => ?_
    · obtain ⟨found, hfound, -⟩ := hdescribed
      exact absurd hfound (hno found)
    · cases htruthy : found.truthy with
      | true => exact .pure ⟨found, hfound, htruthy⟩
      | false =>
        refine .fail fun _ => ⟨fun hstored => ?_, rfl⟩
        obtain ⟨other, hother, htrue⟩ := hstored
        cases hfound.symm.trans hother
        cases htruthy.symm.trans htrue
  · -- What is described has a document that offers something, so nothing fails from here on.
    have hfails (fault : Fault) (hno : ¬ ∃ value, Own answer ctx s id value)
      (hdescribed : Described answer ctx s id) :
        ¬ Stored answer ctx s id ∧ fault = .notFound (.parent (.str id)) := by
      obtain ⟨own, hown, -⟩ := hdescribed.own hstored
      exact absurd ⟨_, hown⟩ hno
    refine .bind (Q := fun document => ∃ found,
      (answer s (.get ctx.naming.collections (.str id))).1 = .value found ∧
      found.item "_source" = .ok document)
        (.bind (.recover (.perform hanswer trivial (fun v hv => hv) fun _ hno => hno) ?_) ?_) ?_
    · intro fault hno
      refine hfails _ ?_
      rintro ⟨value, found, -, hfound, -⟩
      exact hno found hfound
    · refine fun found hfound => .liftM (fun document hsource => ⟨found, hfound, hsource⟩)
        fun fault hfault => hfails _ ?_
      rintro ⟨value, other, document, hother, hsource, -⟩
      cases hfound.symm.trans hother
      cases hfault.symm.trans hsource
    · rintro document ⟨found, hfound, hsource⟩
      refine .liftM (fun value hvalue => ⟨hstored, found, document, hfound, hsource, hvalue⟩)
        fun fault hfault => hfails _ ?_
      rintro ⟨value, other, document', hother, hsource', hvalue⟩
      cases hfound.symm.trans hother
      cases hsource.symm.trans hsource'
      cases hfault.symm.trans hvalue

theorem named_standard : Named standard := by
  intro entry hentry
  simp only [standard, mem_cons, not_mem_nil, or_false] at hentry
  rcases hentry with rfl | rfl | rfl | rfl | rfl | rfl | rfl <;> exact ⟨_, rfl⟩

/-- **The collections are checked in turn.** -/
theorem settles_checkCollections (hanswer : Steady answer) (ids : List String) (last : List Json) :
    Settles answer Call.Look (checkCollections ctx baseUrl (ofStrings asked) last (ids.map .str)) s
      (fun offered => OfferedTo answer ctx s last ids offered ∧
        ∀ id ∈ ids, Stored answer ctx s id ∧
          ∃ own, Own answer ctx s id (.arr own) ∧ Fit asked (own ++ standard))
      fun fault => (∀ id ∈ ids, Known answer ctx s baseUrl id) →
        ∃ id ∈ ids, StopsAt answer ctx s asked id fault := by
  -- Each collection overrides what the one before it offered, so `last` is general.
  induction ids generalizing last with
  | nil => exact .pure ⟨rfl, nofun⟩
  | cons id rest ih =>
    refine .bind (Q := fun _ => True) (.liftM (fun _ _ => trivial) fun fault hfault hknown => ?_)
      fun _ _ => ?_
    · obtain ⟨links, hlinks⟩ := (hknown id mem_cons_self).links
      cases hfault.symm.trans hlinks
    refine ((settles_offers hanswer id).imp fun fault hfault hknown => ?_).bind fun value hvalue =>
      ?_
    · exact ⟨id, mem_cons_self, .inl (hfault (hknown id mem_cons_self).described)⟩
    obtain ⟨hstored, hown⟩ := hvalue
    have hlist (hknown : Known answer ctx s baseUrl id) : ∃ own, value = .arr own ∧ Named own := by
      obtain ⟨own, hown', hnamed⟩ := hknown.described.own hstored
      exact ⟨own, hown.unique hown', hnamed⟩
    refine .bind (Q := fun all => ∃ own, value = .arr own ∧ all = own ++ standard)
      (.liftM (fun all hall => ?_) fun fault hfault hknown => ?_) ?_
    · cases value <;> cases hall
      exact ⟨_, rfl, rfl⟩
    · obtain ⟨own, rfl, -⟩ := hlist (hknown id mem_cons_self)
      cases hfault
    rintro all ⟨own, rfl, rfl⟩
    refine ((settles_checkNames true _ _ asked).imp fun fault hfault hknown => ?_).bind
      fun _ hfit => ?_
    · obtain ⟨_, hsame, hnamed⟩ := hlist (hknown id mem_cons_self)
      cases hsame
      obtain ⟨hlacks, htext⟩ := hfault (forall_mem_append.mpr ⟨hnamed, named_standard⟩)
      exact ⟨id, mem_cons_self, .inr ⟨⟨own, hown, hlacks⟩, htext⟩⟩
    rcases ih (own ++ standard) with ⟨offered, hrest, hoffered, hall⟩ | ⟨fault, hrest, hstops⟩
    · refine .inl ⟨offered, hrest, ?_, forall_mem_cons.mpr ⟨⟨hstored, own, hown, hfit⟩, hall⟩⟩
      cases rest with
      | nil => exact ⟨own, hown, hoffered⟩
      | cons next others => rwa [OfferedTo, getLast?_cons_cons]
    · refine .inr ⟨fault, hrest, fun hknown => ?_⟩
      obtain ⟨other, hother, hwhy⟩ := hstops fun other hother => hknown other
          (mem_cons_of_mem _ hother)
      exact ⟨other, mem_cons_of_mem _ hother, hwhy⟩

/-! ### The steps of an aggregation -/

/-- A request about the collection that a path names, if it names one. -/
def narrowed (request : AggregateRequest) (collection : Json) : AggregateRequest :=
  if collection.truthy then { request with collections := .arr [collection] } else request

/-- The collection of the path and those of the request cannot both be given, and something must be
asked for. -/
theorem aggregate_refused
    (h : (collection.truthy && request.collections.truthy) = true ∨
      (request.aggregations.isNull || request.aggregations.same (.arr [])) = true)
    (ctx : Context) (searched : Json) (r : Request) :
    ∃ text, aggregate ctx request collection searched r = .fail (.http 400 text) := by
  unfold aggregate
  by_cases hcollection : collection.truthy = true <;> by_cases hgiven :
    request.collections.truthy = true
  all_goals
    simp only [hcollection, hgiven, Bool.and_self, Bool.and_true, Bool.and_false,
      Bool.false_eq_true, false_or, if_true, if_false] at h ⊢
  · exact ⟨_, rfl⟩
  all_goals
    simp only [pure_bind, h]
    exact ⟨_, rfl⟩

theorem aggregate_eq_steps (hone : (collection.truthy && request.collections.truthy) = false)
    (hnames : (request.aggregations.isNull || request.aggregations.same (.arr [])) = false)
    (searched : Json) (r : Request) :
    aggregate ctx request collection searched r =
      steps ctx (narrowed request collection) collection searched r := by
  unfold aggregate narrowed
  by_cases hcollection : collection.truthy = true <;> by_cases hgiven :
    request.collections.truthy = true
  all_goals
    simp only [hcollection, hgiven, Bool.and_self, Bool.true_eq_false] at hone
  all_goals
    simp only [hcollection, hgiven, hnames, Bool.false_eq_true, if_true, if_false, pure_bind]

/-- A request by its body is about the collection that its path is taken to name, once its filter is
read. -/
theorem post_eq {named : Json} (ctx : Context)
    (hnamed : (if occursIn "collections".toList (ctx.library.urlPath r.url).toList then
      pathCollection (ctx.library.urlPath r.url) else .ok collection) = .ok named)
    (searched : Json) :
    post ctx request collection searched r =
      (liftM (if request.filter.truthy then
          Filter.ofRequest ctx.library request.filter (.str "cql2-json")
        else .ok request.filter) : Program Json) >>=
        fun filter => aggregate ctx { request with filter := filter } named searched r := by
  unfold AggregateApi.post
  by_cases hpath : occursIn "collections".toList (ctx.library.urlPath r.url).toList = true <;>
    by_cases hgiven : request.filter.truthy = true
  all_goals
    simp only [hpath, if_true, if_false, Bool.false_eq_true, Except.ok.injEq] at hnamed
    simp only [hpath, hgiven, if_true, if_false, Bool.false_eq_true, hnamed,
      liftM_ok_bind, pure_bind]

theorem post_eq_aggregate {named : Json} (hfilter : request.filter = p.filter.elim .null .obj)
    (ctx : Context)
    (hnamed : (if occursIn "collections".toList (ctx.library.urlPath r.url).toList then
            pathCollection (ctx.library.urlPath r.url) else .ok collection) = .ok named)
    (searched : Json) :
    post ctx request collection searched r = aggregate ctx request named searched r := by
  have hread : Filter.ofRequest ctx.library request.filter (.str "cql2-json") =
      .ok request.filter := by
    rw [hfilter]
    cases p.filter <;> rfl
  rw [post_eq ctx hnamed, hread, ite_self]
  rfl

/-- The steps of an aggregation by the criteria, wherever its collections are named. -/
theorem post_eq_steps (ctx : Context)
    (h : p.AggregatedBy (ctx.library.urlPath r.url) asked request collection) (searched : Json) :
    ∃ stated named, p.StatedBy asked stated ∧
      post ctx request collection searched r = steps ctx stated named searched r := by
  have hnames : ∀ {stated}, p.StatedBy asked stated →
      (stated.aggregations.isNull || stated.aggregations.same (.arr [])) = false := by
    intro stated hstated
    rw [hstated.aggregations]
    cases asked with
    | nil => exact absurd rfl hstated.asked_nonempty
    | cons name rest => rfl
  rcases h with ⟨hpath, rfl, hstated⟩ | ⟨name, hpath, hname, hne, hnone, hstated⟩
  · refine ⟨request, .null, hstated, ?_⟩
    rw [post_eq_aggregate hstated.filter ctx (if_neg (Bool.eq_false_iff.mp hpath))]
    exact aggregate_eq_steps rfl (hnames hstated) searched r
  · refine ⟨_, .str name, hstated, ?_⟩
    have hgiven : (str name).truthy = true := bne_iff_ne.mpr hne
    have hfilter : request.filter = p.filter.elim .null .obj := hstated.filter
    rw [post_eq_aggregate hfilter ctx ((if_pos hpath).trans hname)]
    have hone : ((str name).truthy && request.collections.truthy) =
        false := by rw [hgiven, hnone]; rfl
    have hasked := hnames hstated
    rw [aggregate_eq_steps hone hasked, narrowed, if_pos hgiven]

/-- The collections that are listed, if any are. -/
def Lists (collections : Json) (ids : List String) : Prop :=
  collections = ofStrings ids ∨ collections = .null ∧ ids = []

theorem Lists.truthy_nil {collections : Json} (h : Lists collections []) :
    collections.truthy = false := by
  rcases h with rfl | ⟨rfl, -⟩ <;> rfl

/-- The clause that searches in some collections only, if there are any. -/
def inScope : List String → List Clause
  | [] => []
  | ids => [⟨.filter, .collections (ofStrings ids)⟩]

theorem settles_checked (hanswer : Steady answer) {ids : List String}
    (hids : Lists request.collections ids) (hasked : request.aggregations = ofStrings asked)
    (baseUrl : String) (collection : Json) (search : Search) :
    Settles answer Call.Look (checked ctx request collection baseUrl search) s
      (fun x => x.1 = ⟨search.clauses ++ inScope ids⟩ ∧ x.2.1 = (ids.map str).getLastD collection ∧
        Passes answer ctx s asked ids x.2.2)
      fun fault => Ready answer ctx s baseUrl ids → Stops answer ctx s asked ids fault := by
  unfold checked
  rw [hasked]
  cases ids with
  | nil =>
    rw [hids.truthy_nil]
    refine .bind (Q := fun _ => True) (.liftM (fun _ _ => trivial) fun fault hfault hready => ?_)
      fun _ _ => ?_
    · obtain ⟨links, hlinks⟩ := hready.root rfl
      cases hfault.symm.trans hlinks
    refine ((settles_checkNames false _ _ asked).imp fun fault hfault _ => ?_).bind fun _ hfit => ?_
    · exact .inr ((hfault named_standard).imp_left fun hno hcovered => hno (hcovered.standard rfl))
    · exact .pure ⟨by simp [inScope], rfl, rfl, hfit, nofun,
        fun _ name hname => (hfit name hname).1, nofun⟩
  | cons id rest =>
    have hlist : request.collections = .arr ((id :: rest).map .str) := hids.elim (fun h => h) nofun
    rw [hlist]
    refine ((settles_checkCollections hanswer (id :: rest) []).imp fun fault hfault hready =>
      ?_).bind fun offered hpassed => .pure ?_
    · obtain ⟨id, hid, hwhy⟩ := hfault hready.known
      refine hwhy.imp (fun hmissing => ⟨id, hid, hmissing⟩) (And.imp_left fun hlacks hcovered => ?_)
      obtain ⟨own, hown, hlacks⟩ := hlacks
      exact hlacks (hcovered.offered id hid own hown)
    · obtain ⟨hoffered, hall⟩ := hpassed
      refine ⟨rfl, rfl, hoffered, ?_, fun id hid => (hall id hid).1, nofun,
        fun id hid own hown name hname => ?_⟩
      · obtain ⟨own, hown, rfl⟩ := hoffered
        obtain ⟨-, other, hother, hfit⟩ := hall _ (getLast_mem (cons_ne_nil id rest))
        cases hown.unique hother
        exact hfit
      · obtain ⟨-, other, hother, hfit⟩ := hall id hid
        cases hown.unique hother
        exact (hfit name hname).1

theorem settles_filtered (hanswer : Steady answer) (h : p.StatedBy asked request)
    (search : Search) :
    Settles answer Call.Look (filtered ctx request search) s
      (fun x => ∃ query, Searching.translated answer ctx s (p.filter.elim .null .obj) = .ok query ∧
        x = ⟨search.clauses ++ filterClauses ctx.backend query⟩)
      fun fault => ∃ cause,
        Searching.translated answer ctx s (p.filter.elim .null .obj) = .error cause ∧
        fault = .http 400 ("Error with cql2 filter: " ++ cause.text) := by
  unfold filtered
  rw [h.filter]
  cases hfilter : p.filter with
  | none => exact .pure ⟨none, rfl, by simp [filterClauses]⟩
  | some fields =>
    have htruthy : (obj fields).truthy = true := by
      cases fields with
      | nil => exact absurd hfilter p.filter_nonempty
      | cons entry rest => rfl
    rw [Option.elim_some, if_pos htruthy]
    cases hquery : Searching.translated answer ctx s (.obj fields) with
    | ok query =>
      exact .inl ⟨_, Searching.asks_orRefuse_ok hanswer search hquery _, query, rfl, rfl⟩
    | error fault =>
      exact .inr ⟨_, Searching.asks_orRefuse_error hanswer search hquery _, fault, rfl, rfl⟩

theorem exists_definitions (f : Searching.Fineness) (asked : List String) :
    ∃ wanted, Searching.definitions f (ofStrings asked) = .ok wanted := by
  have hkept : ∀ (entries kept : List (String × Json)), ∃ all,
      entries.filterAuxM (fun entry => (ofStrings asked).contains entry.1) kept =
        (.ok all : Outcome _) := by
    intro entries
    induction entries with
    | nil => exact fun kept => ⟨kept, rfl⟩
    | cons entry rest ih => exact fun kept => ih _
  obtain ⟨all, hall⟩ := hkept definitions []
  unfold Searching.definitions filterM
  rw [hall]
  exact ⟨_, rfl⟩

/-- A run that ends with one search as said, or stops before it with a fault as said. -/
def Reaches (answer : Answering σ) (prog : Program Json) (s : σ) (Q : Aggregates → Prop)
    (R : Fault → Prop) : Prop :=
  (∃ sent, EndsWith answer Call.Look prog s [.aggregate sent] ∧ Q sent) ∨
    ∃ fault, Asks answer Call.Look prog s (.error fault) ∧ R fault

theorem Reaches.of_settles {α : Type} {first : Program α} {f : α → Program Json} {P : α → Prop}
    {Q : Aggregates → Prop} {R : Fault → Prop} (h : Settles answer Call.Look first s P R)
    (hf : ∀ a, P a → Reaches answer (f a) s Q R) : Reaches answer (first >>= f) s Q R := by
  rcases h with ⟨a, hfirst, ha⟩ | ⟨fault, hfault, hwhy⟩
  · rcases hf a ha with ⟨sent, hsent, hQ⟩ | ⟨fault, hfault, hR⟩
    · exact .inl ⟨sent, .of_asks_bind hfirst hsent, hQ⟩
    · exact .inr ⟨fault, hfirst.bind_ok hfault, hR⟩
  · exact .inr ⟨fault, hfault.bind_error, hwhy⟩

def scope (p : Criteria) : List String :=
  p.collections.getD []

theorem collectionsClauses_eq (p : Criteria) : p.collectionsClauses = inScope p.scope := by
  unfold collectionsClauses scope
  rcases p.collections with _ | _ | ⟨id, rest⟩ <;> rfl

/-- **The steps lead to one search**, unless the geometry, the collections, the filter or the
precisions stop them, in this order. -/
theorem reaches_steps (hanswer : Steady answer) (h : p.StatedBy asked request)
    (precision : Aggregation.Grid → Json) (interval : Json)
    (hindices : ctx.naming.indices searched = .ok indices) (collection : Json) (r : Request) :
    Reaches answer
      (steps ctx { request with precision := precision, interval := interval } collection searched
        r) s
      (fun sent => ∃ shape query, p.shapeClauses ctx.library = .ok shape ∧
        Searching.translated answer ctx s (p.filter.elim .null .obj) = .ok query ∧
        sent.search.clauses =
          p.idsClauses ++ p.timeClauses ++ p.boxClauses ++ shape ++ inScope p.scope ++
          filterClauses ctx.backend query ∧
        (∃ offered, Passes answer ctx s asked p.scope offered) ∧
        ∃ f, fineness { request with precision := precision, interval := interval } = .ok f)
      fun fault => p.shapeClauses ctx.library = .error fault ∨
        (∃ shape, p.shapeClauses ctx.library = .ok shape) ∧
        ((Ready answer ctx s r.baseUrl p.scope → Stops answer ctx s asked p.scope fault) ∨
          (∃ cause, Searching.translated answer ctx s (p.filter.elim .null .obj) = .error cause ∧
            fault = .http 400 ("Error with cql2 filter: " ++ cause.text)) ∨
          fineness { request with precision := precision, interval := interval } =
            .error fault) := by
  have hids : Lists request.collections p.scope := by
    rw [h.collections, scope]
    cases p.collections with
    | none => exact .inr ⟨rfl, rfl⟩
    | some ids => exact .inl rfl
  have hclauses : plainClauses ctx.library
      { request with precision := precision, interval := interval } =
      plainClauses ctx.library request := rfl
  rw [plainClauses_aggregate h] at hclauses
  cases hshape : p.shapeClauses ctx.library with
  | error fault =>
    rw [hshape, Outcome.error_bind] at hclauses
    refine .inr ⟨fault, ?_, .inl rfl⟩
    unfold steps
    rw [hclauses]
    exact .bind_error (.liftM _)
  | ok shape =>
  rw [hshape, Outcome.ok_bind] at hclauses
  -- Each step goes on with what it has found, or ends the request with its own fault.
  refine .of_settles (P := fun search => search =
    ⟨p.idsClauses ++ p.timeClauses ++ p.boxClauses ++ shape⟩)
    (.liftM (fun _ hok => Except.ok.inj (hok.symm.trans hclauses))
      fun _ herror => by cases herror.symm.trans hclauses) ?_
  rintro _ rfl
  refine .of_settles ((settles_checked hanswer hids h.aggregations r.baseUrl collection _).imp
    fun _ hfault =>
    .inr ⟨⟨shape, rfl⟩, .inl hfault⟩) ?_
  rintro ⟨_, named, offered⟩ ⟨rfl, -, hpasses⟩
  refine .of_settles ((settles_filtered hanswer h _).imp fun _ hfault =>
    .inr ⟨⟨shape, rfl⟩, .inr (.inl hfault)⟩) ?_
  rintro _ ⟨query, hquery, rfl⟩
  cases hfine : fineness { request with precision := precision, interval := interval } with
  | error fault =>
    refine .inr ⟨fault, .bind_error ?_, .inr ⟨⟨shape, rfl⟩, .inr (.inr rfl)⟩⟩
    rw [hfine]
    exact .liftM _
  | ok f =>
    obtain ⟨wanted, hwanted⟩ := exists_definitions f asked
    refine .inl ⟨⟨indices, .bool true, _, wanted⟩, .liftM_bind hfine ?_,
      shape, query, rfl, hquery, rfl, ⟨offered, hpasses⟩, f, rfl⟩
    rw [h.aggregations]
    refine .bind (.recover
      (.liftM_bind hwanted (.liftM_bind hindices (.recover (.perform _ _) fun _ => .fail _))) ?_) ?_
    · intro fault
      cases fault <;> exact .fail _
    · exact fun reply => .liftM_bind fun _ _ => .liftM_bind fun _ _ => .pure _

theorem Supported.not_stops (h : p.Supported answer ctx s baseUrl asked) :
    ¬ (Ready answer ctx s baseUrl p.scope → Stops answer ctx s asked p.scope fault) := by
  intro hstops
  obtain ⟨hready, hstored, hcovered⟩ : Ready answer ctx s baseUrl p.scope ∧
      (∀ id ∈ p.scope, Stored answer ctx s id) ∧ Covered answer ctx s asked p.scope := by
    unfold Supported at h
    unfold scope
    rcases hids : p.collections with _ | _ | ⟨id, rest⟩ <;> rw [hids] at h
    · exact ⟨⟨fun _ => h.2, nofun⟩, nofun, fun _ => h.1, nofun⟩
    · exact ⟨⟨fun _ => h.2, nofun⟩, nofun, fun _ => h.1, nofun⟩
    · refine ⟨⟨nofun, fun id hid => ?_⟩, fun id hid => ?_, nofun, fun id hid own hown => ?_⟩ <;>
        obtain ⟨offered, hid⟩ := h id hid
      · obtain ⟨found, hfound, -⟩ := hid.stored
        exact ⟨⟨found, hfound, fun _ => ⟨offered, hid.document, hid.named⟩⟩, hid.links⟩
      · exact hid.stored
      · cases hown.unique hid.document
        exact hid.offers
  rcases hstops hready with ⟨id, hid, hmissing, -⟩ | ⟨hlacks, -⟩
  · exact hmissing (hstored id hid)
  · exact hlacks hcovered

/-- **An aggregation by the criteria** is one search, with their clauses, unless the geometry cannot
be read or the filter cannot be translated. -/
theorem reaches_aggregate (hanswer : Steady answer)
    (h : p.AggregatedBy (ctx.library.urlPath r.url) asked request collection)
    (hsupported : p.Supported answer ctx s r.baseUrl asked)
    (hindices : ctx.naming.indices searched = .ok indices) :
    Reaches answer (post ctx request collection searched r) s
      (fun sent => ∃ shape query, p.shapeClauses ctx.library = .ok shape ∧
        Searching.translated answer ctx s (p.filter.elim .null .obj) = .ok query ∧
        sent.search.clauses =
          p.idsClauses ++ p.timeClauses ++ p.boxClauses ++ shape ++ p.collectionsClauses ++
          filterClauses ctx.backend query)
      fun fault => p.shapeClauses ctx.library = .error fault ∨
        (∃ shape, p.shapeClauses ctx.library = .ok shape) ∧
        (∃ cause, Searching.translated answer ctx s (p.filter.elim .null .obj) = .error cause) ∧
        ∃ text, fault = .http 400 text := by
  obtain ⟨stated, collection, hstated, hpost⟩ := post_eq_steps ctx h searched
  rw [hpost, collectionsClauses_eq]
  rcases reaches_steps hanswer hstated stated.precision stated.interval hindices collection r with
    ⟨sent, hsent, shape, query, hshape, hquery, hclauses, -⟩ | ⟨fault, hfault, hwhy⟩
  · exact .inl ⟨sent, hsent, shape, query, hshape, hquery, hclauses⟩
  · refine .inr ⟨fault, hfault, ?_⟩
    rcases hwhy with hunread | ⟨hshape, hstops | ⟨cause, hcause, htext⟩ | hfine⟩
    · exact .inl hunread
    · exact absurd hstops hsupported.not_stops
    · exact .inr ⟨hshape, ⟨cause, hcause⟩, _, htext⟩
    · obtain ⟨f, hf⟩ := hstated.fineness
      cases hf.symm.trans hfine

/-- The clauses that an aggregation puts on its search are those of the criteria in another order.
-/
theorem clauses_perm (p : Criteria) (shape : List Clause) (backend : Backend)
    (query : Option Query) :
    (p.clauses shape backend query).Perm (p.idsClauses ++ p.timeClauses ++ p.boxClauses ++ shape ++
        p.collectionsClauses ++ filterClauses backend query) := by
  -- A search adds the clause of the collections second, an aggregation last but one.
  have hswap : (p.collectionsClauses ++ (p.timeClauses ++ p.boxClauses ++ shape)).Perm
      (p.timeClauses ++ p.boxClauses ++ shape ++ p.collectionsClauses) := perm_append_comm
  simpa only [clauses, append_assoc] using
    (hswap.append_left p.idsClauses).append_right (filterClauses backend query)

/-- **Searching and aggregating select the same items.** If the geometry can be read and the filter
can be translated, a search and an aggregation by the same criteria each make one search, and have
the same clauses on it, those that the criteria stand for. If only the filter cannot be translated,
both are refused and search for nothing. A geometry that cannot be read ends both with the same
fault, before the filter is looked at. -/
theorem search_and_aggregate_select_alike (hanswer : Steady answer) (ctx : Context) (s : σ)
    (p : Criteria) (portal : Portal) {search : SearchRequest} (hsearch : p.SearchedBy search)
    (r : Request) {asked : List String} {request : AggregateRequest} {collection searched : Json}
    {r' : Request}
    (haggregate : p.AggregatedBy (ctx.library.urlPath r'.url) asked request collection)
    {indices : String} (hindices : ctx.naming.indices searched = .ok indices)
    (hsupported : p.Supported answer ctx s r'.baseUrl asked) :
    (∀ shape query, p.shapeClauses ctx.library = .ok shape →
      Searching.translated answer ctx s (p.filter.elim .null .obj) = .ok query →
      ∃ (page : Page) (sent : Aggregates),
        EndsWith answer Call.Look (SearchApi.post ctx portal search r) s
          [.findItems page, .count page.indices page.ignoreUnavailable page.search] ∧
        EndsWith answer Call.Look (AggregateApi.post ctx request collection searched r') s
          [.aggregate sent] ∧
        page.search.clauses.Perm sent.search.clauses ∧
        page.search.clauses.Perm (p.clauses shape ctx.backend query)) ∧
    (∀ shape fault, p.shapeClauses ctx.library = .ok shape →
      Searching.translated answer ctx s (p.filter.elim .null .obj) = .error fault →
      ∃ text text',
        Asks answer Call.Look (SearchApi.post ctx portal search r) s (.error (.http 400 text)) ∧
        Asks answer Call.Look (AggregateApi.post ctx request collection searched r') s
          (.error (.http 400 text'))) ∧
    ∀ fault, p.shapeClauses ctx.library = .error fault →
      Asks answer Call.Look (SearchApi.post ctx portal search r) s (.error fault) ∧
      Asks answer Call.Look (AggregateApi.post ctx request collection searched r') s
        (.error fault) := by
  have hreaches := reaches_aggregate hanswer haggregate hsupported hindices
  refine ⟨fun shape query hshape hquery => ?_, fun shape fault hshape hfault => ?_,
    fun fault hunread => ?_⟩
  · obtain ⟨page, hpage, hpageClauses⟩ := endsWith_search hanswer portal hsearch r hshape hquery
    rcases hreaches with ⟨sent, hsent, _, _, hshape', hquery', hclauses⟩ |
      ⟨_, -, hunread | ⟨-, ⟨_, hfault⟩, -⟩⟩
    · cases hshape.symm.trans hshape'
      cases hquery.symm.trans hquery'
      refine ⟨page, sent, hpage, hsent, ?_, by rw [hpageClauses]⟩
      rw [hpageClauses, hclauses]
      exact clauses_perm p shape ctx.backend query
    · cases hshape.symm.trans hunread
    · cases hquery.symm.trans hfault
  · rcases hreaches with ⟨_, -, _, _, -, hquery, -⟩ | ⟨_, hrefused, hunread | ⟨-, -, text, rfl⟩⟩
    · cases hfault.symm.trans hquery
    · cases hshape.symm.trans hunread
    · exact ⟨_, text, asks_search_error hanswer portal hsearch r hshape hfault, hrefused⟩
  · refine ⟨asks_search_unread answer portal hsearch r s hunread, ?_⟩
    rcases hreaches with ⟨_, -, _, _, hshape, -⟩ | ⟨_, hended, hsame | ⟨⟨_, hshape⟩, -⟩⟩
    · cases hunread.symm.trans hshape
    · cases hunread.symm.trans hsame
      exact hended
    · cases hunread.symm.trans hshape

/-- A service to which a geometry has the members that it states, and no others. -/
def literal : Context :=
  { noon with library := { Library.plain with
      geometryPart := fun geometry name =>
        (Fields.get? geometry name).elim (.error (.noMember "Geometry" name)) .ok } }

/-- Criteria of all kinds. -/
def allKinds (geometry filter : Fields) (h : some filter ≠ some []) : Criteria where
  ids := .arr [.str "x", .str "y"]
  collections := some ["a"]
  datetime := .str "2024-01-01T00:00:00Z/.."
  bbox := some [.int 0, .int 0, .int (-5), .int 10, .int 10, .int 5]
  intersects := some geometry
  filter := some filter
  bbox_length := by
    rintro numbers ⟨⟩
    exact .inr rfl
  filter_nonempty := h

def searchOf (p : Criteria) : SearchRequest where
  ids := some p.ids
  collections := some (p.collections.elim .null ofStrings)
  datetime := some p.datetime
  bbox := some (p.bbox.elim .null .arr)
  intersects := some (p.intersects.elim .null .obj)
  filter := some (p.filter.elim .null .obj)

theorem searchedBy_searchOf (p : Criteria) : p.SearchedBy (searchOf p) where
  ids := rfl
  collections := rfl
  datetime := rfl
  bbox := rfl
  intersects := rfl
  filter := rfl
  query := rfl
  words := .inr rfl
  sortby := ⟨.null, none, rfl, rfl⟩
  limit := .inl rfl
  token := ⟨.null, rfl, nofun⟩

def aggregateOf (p : Criteria) : AggregateRequest where
  ids := p.ids
  collections := p.collections.elim .null ofStrings
  datetime := p.datetime
  bbox := p.bbox.elim .null .arr
  intersects := p.intersects.elim .null .obj
  filter := p.filter.elim .null .obj
  aggregations := ofStrings ["total_count"]

theorem statedBy_aggregateOf (p : Criteria) : p.StatedBy ["total_count"] (aggregateOf p) where
  ids := rfl
  collections := rfl
  datetime := rfl
  bbox := rfl
  intersects := rfl
  filter := rfl
  aggregations := rfl
  asked_nonempty := nofun
  fineness := ⟨_, rfl⟩

def atRoot (path : String) : Request :=
  { (default : Request) with baseUrl := "http://host/", url := "http://host/" ++ path }

theorem supported_allKinds (geometry filter : Fields) (h : some filter ≠ some []) :
    (allKinds geometry filter h).Supported (Store.answer []) literal Items.emptyCollection
      (atRoot "aggregate").baseUrl ["total_count"] := by
  rintro name hname
  obtain rfl : name = "a" := mem_singleton.mp hname
  refine ⟨standard, ⟨⟨_, rfl, rfl⟩, ⟨_, _, rfl, rfl, rfl⟩, named_standard, ?_, ?_⟩⟩
  · intro name hname
    obtain rfl : name = "total_count" := mem_singleton.mp hname
    exact ⟨single "total_count" "integer", by simp [standard], rfl⟩
  · exact exists_of_isOk (by decide +kernel)

def byId : Fields :=
  [("op", .str "="), ("args", .arr [.single "property" (.str "id"), .str "y"])]

def withoutArguments : Fields :=
  [("op", .str "=")]

/-- A geometry with coordinates. -/
def somePoint : Fields :=
  [("type", .str "Point"), ("coordinates", .arr [.int 1, .int 1])]

/-- A geometry without coordinates of its own. -/
def someGeometries : Fields :=
  [("type", .str "GeometryCollection"), ("geometries", .arr [.obj somePoint])]

/-- The answer to a search by criteria of all kinds. -/
def searchAllKinds (geometry filter : Fields) (h : some filter ≠ some []) : Program Json :=
  SearchApi.post literal default (searchOf (allKinds geometry filter h)) (atRoot "search")

/-- The answer to an aggregation by criteria of all kinds. -/
def aggregateAllKinds (geometry filter : Fields) (h : some filter ≠ some []) : Program Json :=
  AggregateApi.post literal (aggregateOf (allKinds geometry filter h)) .null (.arr [])
    (atRoot "aggregate")

/-- The three cases: a point by a filter that can be translated, by one that cannot, and a
collection of geometries, which ends both requests as a missing member does and not as a refusal. -/
theorem search_and_aggregate_select_alike_all_kinds :
    (∃ (page : Page) (sent : Aggregates),
      EndsWith (Store.answer []) Call.Look (searchAllKinds somePoint byId nofun)
        Items.emptyCollection
        [.findItems page, .count page.indices page.ignoreUnavailable page.search] ∧
      EndsWith (Store.answer []) Call.Look (aggregateAllKinds somePoint byId nofun)
        Items.emptyCollection [.aggregate sent] ∧
      page.search.clauses.Perm sent.search.clauses ∧ page.search.clauses.length = 6) ∧
    (∃ text text',
      Asks (Store.answer []) Call.Look (searchAllKinds somePoint withoutArguments nofun)
        Items.emptyCollection (.error (.http 400 text)) ∧
      Asks (Store.answer []) Call.Look (aggregateAllKinds somePoint withoutArguments nofun)
        Items.emptyCollection (.error (.http 400 text'))) ∧
    Asks (Store.answer []) Call.Look (searchAllKinds someGeometries withoutArguments nofun)
      Items.emptyCollection (.error (.noMember "Geometry" "coordinates")) ∧
    Asks (Store.answer []) Call.Look (aggregateAllKinds someGeometries withoutArguments nofun)
      Items.emptyCollection (.error (.noMember "Geometry" "coordinates")) := by
  have hpath : Json.occursIn "collections".toList
        (literal.library.urlPath (atRoot "aggregate").url).toList = false := by
    decide +kernel
  have hindices : literal.naming.indices (.arr []) = .ok literal.naming.allItems := rfl
  have halike (geometry filter : Fields) (h : some filter ≠ some []) :=
    search_and_aggregate_select_alike (Store.steady []) literal Items.emptyCollection
      (allKinds geometry filter h)
      default (searchedBy_searchOf _) (atRoot "search")
        (.inl ⟨hpath, rfl, statedBy_aggregateOf _⟩) hindices
      (supported_allKinds geometry filter h)
  refine ⟨?_, ?_, ?_⟩
  · obtain ⟨page, sent, hpage, hsent, hperm, hclauses⟩ :=
      (halike somePoint byId nofun).1 _ _ rfl rfl
    exact ⟨page, sent, hpage, hsent, hperm, hclauses.length_eq.trans rfl⟩
  · exact (halike somePoint withoutArguments nofun).2.1 _ _ rfl rfl
  · exact (halike someGeometries withoutArguments nofun).2.2 _ rfl

end Criteria

end StacCatalog
