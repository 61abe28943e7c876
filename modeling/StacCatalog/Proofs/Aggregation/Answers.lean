import StacCatalog.Proofs.Aggregation.Admission

/-!
# What an aggregation answers
-/

namespace StacCatalog

open List Outcome Json Aggregation

variable {request : AggregateApi.AggregateRequest} {offered entries : List Json}

theorem Json.same_str_right {value : Json} {text : String} :
    value.same (.str text) = true ↔ value = .str text := by
  cases value with
  | str other => simp [same]
  | _ => simp [same, numeral?]

namespace AggregateApi

open Program Criteria

variable {σ : Type} {answer : Answering σ} {ctx : Context} {s t : σ} {r : Request}
    {v : Json} {named : Option String}
  {ids asked : List String} {name : String} {offer : Fields} {acc offers : List Fields}

/-! ### Offers -/

def bears (name : String) (offer : Json) : Bool :=
  offer.field "name" == .str name

def HasName (offer : Fields) : Prop :=
  ∃ value, offer.get? "name" = some value

theorem bears_congr {other : Fields} (h : (obj offer).same (.obj other) = true)
    (hname : HasName offer) (name : String) :
    bears name (.obj offer) = bears name (.obj other) := by
  obtain ⟨value, hvalue⟩ := hname
  obtain ⟨found, hfound, hsame⟩ := sameFields_iff.mp (sameFields_of_same h) "name" value
      (Keyed.mem_of_lookup hvalue)
  rw [Bool.eq_iff_iff]
  simp only [bears, field, Fields.getD, hvalue, hfound, Option.getD_some, beq_iff_eq]
  constructor
  · rintro rfl
    exact same_str.mp hsame
  · rintro rfl
    exact same_str_right.mp hsame

theorem mem_addOffer {other : Fields} (h : other ∈ addOffer acc offer) :
    other = offer ∨ other ∈ acc := by
  induction acc with
  | nil => exact .inl (mem_singleton.mp h)
  | cons first rest ih =>
    rw [addOffer] at h
    split at h
    · exact (mem_cons.mp h).imp_right (mem_cons_of_mem _)
    · rcases mem_cons.mp h with rfl | h
      · exact .inr mem_cons_self
      · exact (ih h).imp_right (mem_cons_of_mem _)

/-- Adding an offer of one name changes nothing among those of another. -/
theorem filter_addOffer (hnames : ∀ other ∈ acc, HasName other) (name : String) :
    (addOffer acc offer).filter (bears name ∘ obj) =
      if bears name (.obj offer) then addOffer (acc.filter (bears name ∘ obj)) offer
        else acc.filter (bears name ∘ obj) := by
  induction acc with
  | nil => simp [addOffer, filter_cons]
  | cons first rest ih =>
    obtain ⟨hfirst, hrest⟩ := forall_mem_cons.mp hnames
    by_cases hsame : (obj first).same (.obj offer) = true
    · have hbears := bears_congr hsame hfirst name
      rw [addOffer, if_pos hsame]
      cases h : bears name (.obj offer) <;> simp [h, hbears, addOffer, hsame]
    · rw [addOffer, if_neg hsame, filter_cons, ih hrest]
      cases bears name (.obj offer) <;> cases h :
        bears name (.obj first) <;> simp [h, addOffer, hsame]

theorem filter_foldl_addOffer (hnames : ∀ other ∈ acc ++ offers, HasName other) (name : String) :
    (offers.foldl addOffer acc).filter (bears name ∘ obj) =
      (offers.filter (bears name ∘ obj)).foldl addOffer (acc.filter (bears name ∘ obj)) := by
  induction offers generalizing acc with
  | nil => rfl
  | cons first rest ih =>
    obtain ⟨hacc, hrest⟩ := forall_mem_append.mp hnames
    obtain ⟨hfirst, hrest⟩ := forall_mem_cons.mp hrest
    rw [foldl_cons, ih, filter_addOffer hacc, filter_cons]
    · cases h : bears name (.obj first) <;> simp [h]
    · refine forall_mem_append.mpr ⟨fun other hother => ?_, hrest⟩
      rcases mem_addOffer hother with rfl | hother
      · exact hfirst
      · exact hacc other hother

theorem length_le_foldl_addOffer (acc offers : List Fields) :
    acc.length ≤ (offers.foldl addOffer acc).length := by
  induction offers generalizing acc with
  | nil => exact le_rfl
  | cons offer offers ih =>
    refine le_trans ?_ (ih _)
    clear ih
    induction acc with
    | nil => exact Nat.zero_le _
    | cons first rest ih =>
      rw [addOffer]
      split
      · exact le_rfl
      · exact Nat.succ_le_succ ih

def Alike (offer other : Json) : Prop :=
  offer.same other = true

/-- Offers come to one exactly if each is like the one before it. -/
theorem length_foldl_addOffer (first : Fields) (offers : List Fields) :
    (offers.foldl addOffer [first]).length ≤ 1 ↔ ((first :: offers).map obj).IsChain Alike := by
  induction offers generalizing first with
  | nil => simp
  | cons offer rest ih =>
    rw [foldl_cons, map_cons, map_cons, isChain_cons_cons, ← map_cons, ← ih, addOffer]
    by_cases hsame : (obj first).same (.obj offer) = true
    · simp [hsame, Alike]
    · have hmore := length_le_foldl_addOffer [first, offer] rest
      rw [if_neg hsame]
      refine iff_of_false ?_ fun h => hsame h.1
      exact Nat.not_le.mpr hmore

/-! ### Entries -/

theorem distinctOffers_eq_ok {distinct : List Fields} {offers : List Json}
    (h : distinctOffers offers = .ok distinct) :
    ∃ fields : List Fields, offers = fields.map .obj ∧ distinct = fields.foldl addOffer [] := by
  unfold distinctOffers at h
  suffices hfold : ∀ acc : List Fields, offers.foldlM (fun acc offer => do
      let fields ← offer.entries
      fields.forM fun entry => entry.2.hashable
      return addOffer acc fields) acc = .ok distinct → ∃ fields : List Fields, offers =
        fields.map .obj ∧ distinct = fields.foldl addOffer acc from
    hfold [] h
  clear h
  induction offers with
  | nil => exact fun acc h => ⟨[], rfl, (Except.ok.inj h).symm⟩
  | cons offer rest ih =>
    intro acc h
    rw [foldlM_cons] at h
    obtain ⟨next, hnext, hrest⟩ := bind_eq_ok.mp h
    obtain ⟨fields, hfields, hkeys⟩ := bind_eq_ok.mp hnext
    obtain ⟨-, -, hadded⟩ := bind_eq_ok.mp hkeys
    obtain rfl : addOffer acc fields = next := Except.ok.inj hadded
    obtain ⟨others, rfl, rfl⟩ := ih _ hrest
    obtain rfl : offer = .obj fields := by
      cases offer <;> cases hfields
      rfl
    exact ⟨fields :: others, rfl, rfl⟩

theorem isAsked_ofStrings (asked : List String) (name : Json) :
    isAsked (ofStrings asked) name = .ok (decide (name ∈ asked.map str)) := by
  have hany : (asked.map str).any name.same = decide (name ∈ asked.map str) := by
    rw [Bool.eq_iff_iff, any_map, any_eq_true, decide_eq_true_iff, mem_map]
    exact exists_congr fun text => and_congr_right fun _ => same_str_right.trans eq_comm
  show Except.ok _ = _
  rw [hany]

theorem name_of_frequency {answers name dataType entry : Json}
    (h : Aggregation.frequency answers name dataType = .ok entry) : entry.field "name" = name := by
  simp only [frequency, bind_eq_ok, pure_eq_ok, Except.ok.injEq] at h
  obtain ⟨_, -, _, -, _, -, _, -, _, -, rfl⟩ := h
  rfl

theorem name_of_metric {answers name dataType entry : Json}
    (h : Aggregation.metric answers name dataType = .ok entry) : entry.field "name" = name := by
  simp only [metric, bind_eq_ok, pure_eq_ok] at h
  obtain ⟨_, -, _, -, _, -, time, -, h⟩ := h
  cases time <;> simp only [bind_eq_ok, Except.ok.injEq, if_true, if_false,
    Bool.false_eq_true] at h <;>
    obtain ⟨_, -, rfl⟩ := h <;> rfl

/-- An offer that is asked for is answered under its name, and no other is answered. -/
theorem name_of_answerOne {answers : Json} {found : Option Json}
    (h : answerOne answers (ofStrings asked) offer = .ok found) :
    Option.guard (· ∈ asked.map str) ((obj offer).field "name") = found.map (·.field "name") := by
  obtain ⟨name, hname, h⟩ := bind_eq_ok.mp h
  rw [isAsked_ofStrings, ok_bind] at h
  rw [field_of_item hname]
  cases hasked : decide (name ∈ asked.map str) with
  | true =>
    rw [hasked, if_pos rfl] at h
    obtain ⟨text, -, h⟩ := bind_eq_ok.mp h
    obtain ⟨dataType, -, h⟩ := bind_eq_ok.mp h
    split at h
    all_goals
      obtain ⟨entry, hentry, hfound⟩ := bind_eq_ok.mp h
      obtain rfl : some entry = found := Except.ok.inj hfound
    · rw [Option.map_some, name_of_frequency hentry, Option.guard, if_pos hasked]
    · rw [Option.map_some, name_of_metric hentry, Option.guard, if_pos hasked]
  | false =>
    rw [hasked] at h
    cases h
    rw [Option.guard, hasked]
    rfl

theorem names_of_answersOf {reply : Json} (hreply : reply.truthy = true)
    (h : answersOf reply (ofStrings asked) offered = .ok entries) :
    ∃ fields : List Fields, offered ++ Aggregation.additional = fields.map .obj ∧
      entries.map (·.field "name") =
        ((fields.foldl addOffer []).map fun offer => (obj offer).field "name").filter
          (· ∈ asked.map str) := by
  unfold answersOf at h
  rw [if_pos hreply] at h
  obtain ⟨answers, -, h⟩ := bind_eq_ok.mp h
  obtain ⟨distinct, hdistinct, h⟩ := bind_eq_ok.mp h
  obtain ⟨found, hfound, h⟩ := bind_eq_ok.mp h
  obtain rfl : found.filterMap id = entries := Except.ok.inj h
  obtain ⟨fields, hfields, rfl⟩ := distinctOffers_eq_ok hdistinct
  refine ⟨fields, hfields, ?_⟩
  have hnames : (fields.foldl addOffer []).map
        (fun offer => Option.guard (· ∈ asked.map str) ((obj offer).field "name")) =
      found.map (Option.map (·.field "name")) :=
    map_eq_of_forall₂ (fun _ _ hone => name_of_answerOne hone) (mapM_eq_ok.mp hfound)
  calc (found.filterMap id).map (·.field "name")
      = (found.map (Option.map (·.field "name"))).filterMap id := by
        rw [map_filterMap, filterMap_map]
        rfl
    _ = _ := by
      rw [← hnames, filterMap_map, ← filterMap_eq_filter, filterMap_map]
      rfl

/-- **A name has one entry exactly if its offers are alike**, and it has one if it is offered. -/
theorem count_names {reply : Json} (hreply : reply.truthy = true)
    (h : answersOf reply (ofStrings asked) offered = .ok entries) (hfit : Fit asked offered)
    (hname : name ∈ asked) :
    0 < (entries.map (·.field "name")).count (.str name) ∧
    ((entries.map (·.field "name")).count (.str name) ≤ 1 ↔
      ((offered ++ Aggregation.additional).filter (bears name)).IsChain Alike) := by
  obtain ⟨fields, hfields, hnames⟩ := names_of_answersOf hreply h
  obtain ⟨hoffered, hitems⟩ := hfit name hname
  have hall : ∀ offer ∈ [] ++ fields, HasName offer := by
    intro offer hoffer
    have hmem : obj offer ∈ offered ++ additional := hfields ▸ mem_map_of_mem hoffer
    obtain ⟨value, hvalue⟩ : ∃ value, (obj offer).item "name" = .ok value := by
      rcases mem_append.mp hmem with hmem | hmem
      · exact hitems _ hmem
      · rw [mem_singleton.mp hmem]
        exact ⟨_, rfl⟩
    obtain ⟨_, heq, hget⟩ := exists_get?_of_item hvalue
    exact ⟨value, obj.inj heq ▸ hget⟩
  have hcount : (entries.map (·.field "name")).count (.str name) =
      ((fields.filter (bears name ∘ obj)).foldl addOffer []).length := by
    rw [hnames, count_filter (by simpa using hname), count_eq_length_filter, filter_map, length_map]
    exact congrArg length (filter_foldl_addOffer hall name)
  have hoffers : (offered ++ additional).filter (bears name) =
      (fields.filter (bears name ∘ obj)).map .obj := by
    rw [hfields, filter_map]
  rw [hcount, hoffers]
  cases hnamed : fields.filter (bears name ∘ obj) with
  | nil =>
    obtain ⟨entry, hentry, hitem⟩ := hoffered
    have hmem : entry ∈ fields.map obj := hfields ▸ mem_append_left _ hentry
    obtain ⟨offer, hoffer, rfl⟩ := mem_map.mp hmem
    have hbears : bears name (.obj offer) =
        true := by rw [bears, field_of_item hitem, beq_self_eq_true]
    exact absurd hbears (filter_eq_nil_iff.mp hnamed offer hoffer)
  | cons first rest =>
    rw [foldl_cons]
    exact ⟨length_le_foldl_addOffer [first] rest, length_foldl_addOffer first rest⟩

/-! ### Runs -/

theorem narrowed_aggregations (request : AggregateRequest) (collection : Json) :
    (narrowed request collection).aggregations = request.aggregations := by
  unfold narrowed
  split <;> rfl

/-- What a request that is answered was checked against, and what its answer is made of. -/
theorem exists_answer {collection searched : Json}
    (h : (aggregate ctx request collection searched r).run answer s = (.ok v, t)) :
    (collection.truthy && request.collections.truthy) = false ∧
    ∃ search x u sent state reply entries links,
      (checked ctx (narrowed request collection) collection r.baseUrl search).run answer s =
        (.ok x, u) ∧
      (answer state (.aggregate sent)).1 = .value reply ∧
      answersOf reply request.aggregations x.2.2 = .ok entries ∧
      answerLinks r.baseUrl x.2.1 = .ok links ∧ v.field "aggregations" = .arr entries ∧
      v.field "links" = .arr links := by
  have hallowed : (collection.truthy && request.collections.truthy) = false ∧
      (request.aggregations.isNull || request.aggregations.same (.arr [])) = false := by
    by_contra hno
    rw [not_and_or, Bool.not_eq_false, Bool.not_eq_false] at hno
    obtain ⟨text, htext⟩ := aggregate_refused hno ctx searched r
    rw [htext] at h
    cases h
  rw [aggregate_eq_steps hallowed.1 hallowed.2, steps, run_liftM_bind_eq_ok] at h
  obtain ⟨search, -, h⟩ := h
  obtain ⟨x, u, hchecked, h⟩ := run_bind_eq_ok.mp h
  obtain ⟨search', u', -, h⟩ := run_bind_eq_ok.mp h
  obtain ⟨f, -, h⟩ := run_liftM_bind_eq_ok.mp h
  obtain ⟨reply, t', hreply, h⟩ := run_bind_eq_ok.mp h
  obtain ⟨entries, hentries, h⟩ := run_liftM_bind_eq_ok.mp h
  obtain ⟨links, hlinks, h⟩ := run_liftM_bind_eq_ok.mp h
  rw [narrowed_aggregations] at hentries
  rw [run_recover_eq_ok (by rintro (_ | _) <;> exact ⟨_, rfl⟩)] at hreply
  obtain ⟨wanted, -, hreply⟩ := run_liftM_bind_eq_ok.mp hreply
  obtain ⟨indices, -, hreply⟩ := run_liftM_bind_eq_ok.mp hreply
  obtain ⟨hvalue, -⟩ := run_perform_eq_ok.mp (run_orMissing_eq_ok.mp hreply)
  cases h
  exact ⟨hallowed.1, search, x, u, _, _, reply, entries, links, hchecked, hvalue,
    hentries, hlinks, rfl, rfl⟩

/-- A call that aggregates: by a path and a body, or by parameters. -/
inductive Calls (ctx : Context) (r : Request) (named : Option String) (ids : List String)
    (names : Json) : Program Json → Prop
  | byBody (request : AggregateRequest) (searched : Json)
      (hpath : ctx.library.urlPath r.url = route [] named)
      (hids : Lists request.collections ids) (hnames : request.aggregations = names) :
      Calls ctx r named ids names (post ctx request .null searched r)
  | byParameters (p : AggregateParameters) (hnamed : p.collectionId = named.elim .null .str)
      (hids : Lists p.collections ids) (hnames : p.aggregations = names) :
      Calls ctx r named ids names (get ctx p r)

theorem Calls.exists_aggregate {names : Json} {call : Program Json}
    (hcall : Calls ctx r named ids names call) (hslash : ∀ id ∈ named, '/' ∉ id.toList)
    (h : call.run answer s = (.ok v, t)) :
    ∃ request searched, Lists request.collections ids ∧ request.aggregations = names ∧
      (aggregate ctx request (named.elim .null .str) searched r).run answer s = (.ok v, t) := by
  cases hcall with
  | byBody request searched hpath hids hnames =>
    have hnamed := pathNamed_route hslash
    rw [← hpath] at hnamed
    rw [post_eq ctx hnamed] at h
    obtain ⟨filter, -, h⟩ := run_liftM_bind_eq_ok.mp h
    exact ⟨{ request with filter := filter }, searched, hids, hnames, h⟩
  | byParameters p hnamed hids hnames =>
    obtain ⟨request, hrequest, h⟩ := run_liftM_bind_eq_ok.mp h
    simp only [AggregateParameters.toRequest, bind_eq_ok] at hrequest
    obtain ⟨_, -, _, -, _, -, hrequest⟩ := hrequest
    cases hrequest
    exact ⟨_, _, hids, hnames, hnamed ▸ h⟩

/-- A request that is answered was checked against the collection of the path, or else against those
it lists. -/
theorem lists_narrowed (hids : Lists request.collections ids) (hnamed : ∀ id ∈ named, id ≠ "")
    (hone : ((named.elim null .str).truthy && request.collections.truthy) = false) :
    Lists (narrowed request (named.elim .null .str)).collections (named.toList ++ ids) := by
  cases named with
  | none => exact hids
  | some id =>
    have hgiven : (str id).truthy = true := bne_iff_ne.mpr (hnamed id rfl)
    rw [Option.elim_some, hgiven, Bool.true_and] at hone
    obtain rfl : ids = [] := by
      rcases hids with hids | ⟨-, hids⟩
      · cases ids with
        | nil => rfl
        | cons other rest =>
          rw [hids] at hone
          cases hone
      · exact hids
    rw [narrowed, Option.elim_some, if_pos hgiven]
    exact .inl rfl

/-- **The names of the entries are those that are asked for**, and each has one entry exactly if its
offers are all alike. -/
theorem names_answered (hanswer : Steady answer)
    (hreplies : ∀ s sent reply, (answer s (.aggregate sent)).1 = .value reply → reply.truthy = true)
    {call : Program Json} (hcall : Calls ctx r named ids (Json.ofStrings asked) call)
    (hnamed : ∀ id ∈ named, id ≠ "" ∧ '/' ∉ id.toList) (h : call.run answer s = (.ok v, t)) :
    ∃ entries offered, v.field "aggregations" = .arr entries ∧
      OfferedTo answer ctx s Aggregation.standard (named.toList ++ ids) offered ∧
      (∀ x, x ∈ entries.map (·.field "name") ↔ ∃ name ∈ asked, x = .str name) ∧
      ((entries.map (·.field "name")).Nodup ↔
        ∀ name ∈ asked,
          ((offered ++ Aggregation.additional).filter (bears name)).IsChain Alike) := by
  obtain ⟨request, searched, hids, hasked, h⟩ :=
      hcall.exists_aggregate (fun id hid => (hnamed id hid).2) h
  obtain ⟨hone, search, x, u, sent, state, reply, entries, -, hchecked, hvalue, hentries, -,
      hfield, -⟩ := exists_answer h
  have hlists := lists_narrowed hids (fun id hid => (hnamed id hid).1) hone
  rw [← narrowed_aggregations request (named.elim .null .str)] at hasked
  obtain ⟨-, -, -, hpasses⟩ := (settles_checked hanswer hlists hasked _ _ _).of_run hchecked
  rw [narrowed_aggregations] at hasked
  rw [hasked] at hentries
  have hreply := hreplies _ _ _ hvalue
  have hcount (name : String) (hname : name ∈ asked) :=
      count_names hreply hentries hpasses.fit hname
  have hmem : ∀ x, x ∈ entries.map (·.field "name") → ∃ name ∈ asked, x = .str name := by
    obtain ⟨fields, -, hnames⟩ := names_of_answersOf hreply hentries
    intro x hx
    obtain ⟨-, hx⟩ := mem_filter.mp (hnames ▸ hx)
    obtain ⟨name, hname, rfl⟩ := mem_map.mp (of_decide_eq_true hx)
    exact ⟨name, hname, rfl⟩
  refine ⟨entries, x.2.2, hfield, hpasses.offeredTo, fun x => ⟨hmem x, ?_⟩, ?_⟩
  · rintro ⟨name, hname, rfl⟩
    exact count_pos_iff.mp (hcount name hname).1
  · rw [nodup_iff_count_le_one]
    refine ⟨fun hnodup name hname => (hcount name hname).2.mp (hnodup _), fun halike x => ?_⟩
    by_cases hx : x ∈ entries.map (·.field "name")
    · obtain ⟨name, hname, rfl⟩ := hmem x hx
      exact (hcount name hname).2.mpr (halike name hname)
    · rw [count_eq_zero.mpr hx]
      exact Nat.zero_le _

/-- A call for counts by a grid, which the collection and the catalogue word in two ways. -/
def gridCall : Program Json :=
  Enquiry.gridAt (.byGrid 12) "collections/a/aggregate"

theorem calls_gridCall : Calls noon (atRoot "collections/a/aggregate") (some "a") []
    (ofStrings (Enquiry.byGrid 12).names) gridCall :=
  .byBody _ _ (by decide +kernel) (.inr ⟨rfl, rfl⟩) rfl

theorem exists_run_gridCall : ∃ v t, gridCall.run Enquiry.holding () = (.ok v, t) := by
  have hok : (gridCall.run Enquiry.holding ()).1.isOk = true := by decide +kernel
  generalize gridCall.run Enquiry.holding () = result at hok ⊢
  obtain ⟨outcome, t⟩ := result
  obtain ⟨v, rfl⟩ := exists_of_isOk hok
  exact ⟨v, t, rfl⟩

theorem names_answered_gridCall :
    ∃ v t entries, gridCall.run Enquiry.holding () = (.ok v, t) ∧
      v.field "aggregations" = .arr entries ∧
      .str "datetime_frequency" ∈ entries.map (·.field "name") ∧
      ¬ (entries.map (·.field "name")).Nodup := by
  obtain ⟨v, t, hv⟩ := exists_run_gridCall
  obtain ⟨entries, offered, hentries, hoffered, hnames, hnodup⟩ := names_answered (fun _ _ _ => rfl)
    (fun _ _ _ hvalue => by cases hvalue; rfl) calls_gridCall (by simp) hv
  obtain ⟨own, hown, rfl⟩ := hoffered
  cases hown.unique (Enquiry.own_holding noon "a")
  refine ⟨v, t, entries, hv, hentries,
    (hnames _).mpr ⟨_, by simp [Enquiry.names, Enquiry.byGrid], rfl⟩, fun h => ?_⟩
  have hchain := hnodup.mp h "geometry_geohash_grid_frequency"
      (by simp [Enquiry.names, Enquiry.byGrid])
  have hoffers : ([distribution "geometry_geohash_grid_frequency" "numeric"] ++
      standard ++ additional).filter
      (bears "geometry_geohash_grid_frequency") =
        [distribution "geometry_geohash_grid_frequency" "numeric",
          distribution "geometry_geohash_grid_frequency" "string"] := by decide +kernel
  rw [hoffers, isChain_cons_cons] at hchain
  exact absurd hchain.1 (by unfold Alike; decide)

/-! ### Links -/

theorem last_checked {collection : Json} {baseUrl : String} {search : Search}
    {x : Search × Json × List Json} (hids : Lists request.collections ids)
    (h : (checked ctx request collection baseUrl search).run answer s = (.ok x, t)) :
    x.2.1 = (ids.map str).getLastD collection := by
  unfold checked at h
  cases ids with
  | nil =>
    rw [hids.truthy_nil] at h
    obtain ⟨_, -, h⟩ := run_liftM_bind_eq_ok.mp h
    obtain ⟨_, -, h⟩ := run_liftM_bind_eq_ok.mp h
    obtain ⟨_, -, h⟩ := run_liftM_bind_eq_ok.mp h
    cases h
    rfl
  | cons id rest =>
    have hlist : request.collections = .arr ((id :: rest).map .str) := hids.elim (fun h => h) nofun
    rw [hlist] at h
    obtain ⟨all, hall, h⟩ := run_liftM_bind_eq_ok.mp h
    obtain ⟨_, _, -, h⟩ := run_bind_eq_ok.mp h
    cases hall
    cases h
    rfl

/-- The links of an answer: to the catalogue, to a collection if there is one, and to the answer
itself. -/
def linksAt (base : String) (collection : Option String) (self : String) : List Json :=
  [Links.link "root" Links.json base] ++
    (collection.map fun id => Links.link "collection" Links.json
      (base ++ ("collections/" ++ id))).toList ++
    [Links.link "self" Links.json (base ++ self)]

theorem answerLinks_eq {base : String} (hbase : Url.Base base) {last : Option String}
    (hplain : ∀ id ∈ last, Url.Plain id.toList) :
    answerLinks base (last.elim .null .str) =
      .ok (linksAt base last (last.elim "aggregate" fun _ => "collections/aggregate")) := by
  unfold answerLinks
  cases last with
  | none =>
    rw [Option.elim_none, hbase.join_word "aggregate" (by decide)]
    rfl
  | some id =>
    have hid := hplain id rfl
    have hgiven : (str id).truthy = true := bne_iff_ne.mpr fun hempty =>
        hid.ne_nil (by rw [hempty]; rfl)
    have hself : Url.join (base ++ ("collections/" ++ id)) "aggregate" =
        .ok (base ++ ("collections/" ++ "aggregate")) := by
      have hfront : "collections/".toList = "collections".toList ++ ['/'] := by decide
      rw [← String.append_assoc, ← String.append_assoc]
      exact hbase.join_sibling hfront (by decide) hid (by decide)
    rw [Option.elim_some, if_pos hgiven, display, hbase.join_collection hid, ok_bind, hself]
    rfl

theorem linksAt_inj {base self other : String} {collection collection' : Option String}
    (h : linksAt base collection self = linksAt base collection' other) :
    collection = collection' ∧ self = other := by
  cases collection <;> cases collection' <;> simp_all [linksAt, Links.link]

/-- **The links of an answer are those of the endpoint** exactly if the call is about no collection
at all: otherwise they are those of the last collection that it is about, and of no endpoint. -/
theorem links_answered {names : Json} {call : Program Json}
    (hcall : Calls ctx r named ids names call) (hbase : Url.Base r.baseUrl)
    (hplain : ∀ id ∈ named.toList ++ ids, Url.Plain id.toList)
    (h : call.run answer s = (.ok v, t)) : let last := (named.toList ++ ids).getLast?
    v.field "links" = .arr (linksAt r.baseUrl last (last.elim "aggregate" fun _ =>
      "collections/aggregate")) ∧
    (v.field "links" = .arr (linksAt r.baseUrl named ("/".intercalate (segmentsOf named))) ↔
    named = none ∧ ids = []) := by
  intro last
  have hnamed : ∀ id ∈ named, Url.Plain id.toList :=
      fun id hid => hplain id (by simp [Option.mem_toList.mpr hid])
  obtain ⟨request, searched, hids, -, h⟩ :=
      hcall.exists_aggregate (fun id hid => (hnamed id hid).notMem (by decide)) h
  obtain ⟨hone, search, x, u, -, -, -, -, links, hchecked, -, -, hlinks, -, hfield⟩ :=
      exists_answer h
  have hlists := lists_narrowed hids (fun id hid hempty =>
      (hnamed id hid).ne_nil (by rw [hempty]; rfl)) hone
  have hlast : x.2.1 = last.elim .null .str := by
    rw [last_checked hlists hchecked, getLastD_eq_getLast?, getLast?_map]
    cases h : (named.toList ++ ids).getLast? with
    | none =>
      have hnone : named = none := by
        rw [getLast?_eq_none_iff, append_eq_nil_iff, Option.toList_eq_nil_iff] at h
        exact h.1
      simp [last, h, hnone]
    | some id => simp [last, h]
  rw [hlast, answerLinks_eq hbase fun id hid => hplain id (mem_of_getLast? hid)] at hlinks
  rw [hfield, ← Except.ok.inj hlinks]
  refine ⟨rfl, fun hsame => ?_, ?_⟩
  · obtain ⟨hcollection, hself⟩ := linksAt_inj (Json.arr.inj hsame)
    cases named with
    | none => exact ⟨rfl, getLast?_eq_none_iff.mp hcollection⟩
    | some id =>
      have hlength := congrArg (·.toList.length) hself
      simp only [hcollection, Option.elim_some, segmentsOf] at hlength
      simp at hlength
  · rintro ⟨rfl, rfl⟩
    rfl

/-- The same call is answered with the links of its collection, and with none to itself. -/
theorem links_answered_gridCall :
    ∃ v t, gridCall.run Enquiry.holding () = (.ok v, t) ∧
      v.field "links" = .arr (linksAt "http://host/" (some "a") "collections/aggregate") ∧
      v.field "links" ≠
        .arr (linksAt "http://host/" (some "a")
            ("/".intercalate ["collections", "a", "aggregate"])) := by
  obtain ⟨v, t, hv⟩ := exists_run_gridCall
  obtain ⟨hlinks, hendpoint⟩ := links_answered calls_gridCall Url.base_host
    (by decide) hv
  exact ⟨v, t, hv, hlinks, fun h => absurd (hendpoint.mp h).1 nofun⟩

end AggregateApi

end StacCatalog
