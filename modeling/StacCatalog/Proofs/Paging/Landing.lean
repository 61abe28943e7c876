import StacCatalog.Api.Browse
import StacCatalog.Proofs.Paging.Collections
import StacCatalog.Proofs.Url.Join
import StacCatalog.Proofs.Url.Setting

/-!
# The landing page links to the first page of collections, and nothing reads on from there
-/

namespace StacCatalog.Browse

open Program List Outcome

variable {r : Request} {ctx : Context} {roster : Roster ctx.library} {shown : List Json}

/-- The addresses that links give for what stands in a relation to the page. -/
def addresses (rel : String) (links : List Json) : List Json :=
  links.filterMap fun link => if link.field "rel" = .str rel then some (link.field "href") else none

theorem addresses_append (rel : String) (links more : List Json) :
    addresses rel (links ++ more) = addresses rel links ++ addresses rel more :=
  filterMap_append

/-- A request for the landing page, without parameters, of a service whose own pages are found. -/
structure IsVisit (r : Request) : Prop where
  base : Url.Base r.baseUrl
  url : (Url.Parts.read [] r.url.toList).isOk = true
  method : r.method = "GET"
  bare : r.queryParams = []
  description : (serviceAddress r r.openapiUrl).isOk = true
  documentation : (serviceAddress r r.docsUrl).isOk = true

/-! ### Links -/

theorem exists_homeLinks (h : Url.Base r.baseUrl) :
    ∃ links, homeLinks r = .ok links ∧ addresses "child" links = [] := by
  have hdata := h.join_word "collections" (by decide)
  have hconformance := h.join_word "conformance" (by decide)
  have hsearch := h.join_word "search" (by decide)
  simp only [homeLinks, hdata, hconformance, hsearch, ok_bind, pure_eq_ok]
  exact ⟨_, rfl, rfl⟩

theorem exists_extensionLinks (h : Url.Base r.baseUrl) (portal : Portal) :
    ∃ links, extensionLinks portal r = .ok links ∧ addresses "child" links = [] := by
  have hqueryables := h.join_word "queryables" (by decide)
  have haggregate := h.join_word "aggregate" (by decide)
  have haggregations := h.join_word "aggregations" (by decide)
  simp only [extensionLinks, hqueryables, haggregate, haggregations, ok_bind, pure_eq_ok]
  split_ifs <;> exact ⟨_, rfl, rfl⟩

def collectionAddress (r : Request) (id : String) : String :=
  r.baseUrl ++ ("collections/" ++ id)

theorem exists_childLink (h : Url.Base r.baseUrl) {id : String} {shown : Json}
    (hid : shown.item "id" = .ok (.str id)) (hplain : Url.Plain id.toList) :
    ∃ link, childLink r shown = .ok link ∧ link.field "rel" = .str "child" ∧
      link.field "href" = .str (collectionAddress r id) := by
  obtain ⟨fields, rfl, -⟩ := Json.exists_get?_of_item hid
  have htitle : (Json.obj fields).lookup "title" = .ok (Fields.getD fields "title") := rfl
  have haddress : Url.join r.baseUrl ("collections/" ++ id) = .ok (collectionAddress r id) :=
      h.join_collection hplain
  simp only [childLink, htitle, Json.lookup_of_item hid, hid, Json.display,
    haddress, ok_bind, pure_eq_ok]
  exact ⟨_, rfl, rfl, rfl⟩

theorem exists_children (h : Url.Base r.baseUrl) {ids : List String}
    (hids : ∀ id ∈ ids, Url.Plain id.toList)
    (hshown : List.Forall₂ (roster.Shows r ctx.extensions) ids shown) :
    ∃ links, shown.mapM (childLink r) = .ok links ∧
      addresses "child" links = ids.map fun id => .str (collectionAddress r id) := by
  induction hshown with
  | nil => exact ⟨[], rfl, rfl⟩
  | @cons id answered ids shown hone hrest ih =>
    obtain ⟨link, hlink, hrel, hhref⟩ := exists_childLink h hone.2 (hids id mem_cons_self)
    obtain ⟨links, hlinks, haddresses⟩ := ih fun other hother =>
        hids other (mem_cons_of_mem _ hother)
    refine ⟨link :: links, by rw [mapM_cons, hlink, ok_bind, hlinks]; rfl, ?_⟩
    rw [addresses, filterMap_cons_some (by rw [if_pos hrel]), hhref, map_cons]
    exact congrArg _ haddresses

/-! ### The page -/

variable {σ : Type} {answer : Answering σ}

theorem run_collectionsPage (h : IsVisit r) (hserves : roster.Serves ctx answer)
    (hshown : List.Forall₂ (roster.Shows r ctx.extensions) roster.sorted shown) (s : σ) :
    ∃ links t, (collectionsPage ctx r).run answer s = (.ok (shown.take 10, links), t) := by
  obtain ⟨parts, hread⟩ := exists_of_isOk h.url
  obtain ⟨next, t, hpage⟩ : ∃ next t,
      (Collections.page ctx .null (.int 10) r).run answer s = (.ok (shown.take 10, next), t) := by
    obtain ⟨next, t, hpage, -⟩ := Roster.page_step (show 1 ≤ 10 by decide) hserves
        (.inl ⟨rfl, rfl⟩) hshown s
    exact ⟨next, t, hpage⟩
  have hlimit : integer ((Fields.get? r.queryParams "limit").getD (.int 10)) = .ok 10 := by
    rw [h.bare]
    rfl
  have htoken : Fields.getD r.queryParams "token" = .null := by
    rw [h.bare]
    rfl
  obtain ⟨more, hmore⟩ : ∃ more, Links.next r next = .ok more := by
    simp only [Links.next, h.method, Url.setParams_of_read hread, if_true]
    split_ifs <;> exact ⟨_, rfl⟩
  unfold collectionsPage
  rw [hlimit, liftM_ok_bind, htoken]
  dsimp only
  rw [run_bind_ok hpage, h.base.join_word "collections" (by decide), liftM_ok_bind]
  by_cases htruthy : next.truthy = true
  · rw [if_pos htruthy, hmore, liftM_ok_bind]
    exact ⟨_, _, rfl⟩
  · rw [if_neg htruthy]
    exact ⟨_, _, rfl⟩

/-- The ids that come first are all ids exactly if they are no more than are taken. -/
theorem count_addresses_iff {library : Library} (roster : Roster library) (r : Request)
    (limit : Nat) :
    (∀ id ∈ roster.ids,
      ((roster.sorted.take limit).map fun id => Json.str (collectionAddress r id)).count
          (.str (collectionAddress r id)) = 1) ↔ roster.ids.card ≤ limit := by
  have hinjective : Function.Injective fun id => Json.str (collectionAddress r id) := by
    intro id other heq
    simpa [collectionAddress] using heq
  have hnodup : roster.sorted.Nodup := roster.ids.sort_nodup _
  have hlength : roster.sorted.length = roster.ids.card := Finset.length_sort _
  constructor
  · intro h
    have hsubset : roster.sorted ⊆ roster.sorted.take limit := by
      intro id hid
      have hcount := h id ((Finset.mem_sort _).mp hid)
      rw [count_map_of_injective _ _ hinjective] at hcount
      exact count_pos_iff.mp (hcount ▸ Nat.one_pos)
    have hle := (hnodup.subperm hsubset).length_le
    rw [hlength, length_take] at hle
    omega
  · intro h id hid
    rw [take_of_length_le (hlength ▸ h), count_map_of_injective _ _ hinjective]
    exact count_eq_one_of_mem hnodup ((Finset.mem_sort _).mpr hid)

/-- **The landing page links to the first ten collections.** Whatever finite set of collections is
stored under plain ids, every visit is answered with a page whose child links are those of the first
ten by ascending id; so every collection has exactly one if there are no more than ten, and only
then. -/
theorem landingPage_children (ctx : Context) (roster : Roster ctx.library) (portal : Portal)
    (r : Request) (answer : Answering σ) (s : σ) (h : IsVisit r)
    (hserves : roster.Serves ctx answer) (hids : ∀ id ∈ roster.ids, Url.Plain id.toList) :
    ∃ page links t, (landingPage ctx portal r).run answer s = (.ok page, t) ∧
      page.field "links" = .arr links ∧
      addresses "child" links =
        (roster.ids.sort.take 10).map (fun id => .str (collectionAddress r id)) ∧
      ((∀ id ∈ roster.ids, (addresses "child" links).count (.str (collectionAddress r id)) = 1) ↔
        roster.ids.card ≤ 10) := by
  obtain ⟨parts, hread⟩ := h.base.exists_read
  obtain ⟨shown, hshown⟩ := roster.exists_shown hread ctx.extensions
  obtain ⟨home, hhome, hhomeless⟩ := exists_homeLinks h.base
  obtain ⟨extensions, hextensions, hextensionless⟩ := exists_extensionLinks h.base portal
  obtain ⟨links, t, hpage⟩ := run_collectionsPage h hserves hshown s
  obtain ⟨children, hchildren, haddresses⟩ := exists_children h.base
    (fun id hid => hids id ((Finset.mem_sort _).mp (List.mem_of_mem_take hid)))
      (List.forall₂_take 10 hshown)
  obtain ⟨description, hdescription⟩ := Outcome.exists_of_isOk h.description
  obtain ⟨documentation, hdocumentation⟩ := Outcome.exists_of_isOk h.documentation
  have hchild (service : List Json) (hservice : addresses "child" service = []) :
      addresses "child" (home ++ extensions ++ children ++ service) =
        (roster.ids.sort.take 10).map fun id => .str (collectionAddress r id) := by
    rw [addresses_append, addresses_append, addresses_append, hhomeless, hextensionless,
      hservice, List.append_nil]
    exact haddresses
  unfold landingPage
  rw [hhome, liftM_ok_bind, hextensions, liftM_ok_bind, run_bind_ok hpage]
  dsimp only
  rw [hchildren, liftM_ok_bind, hdescription, liftM_ok_bind, hdocumentation, liftM_ok_bind]
  refine ⟨_, _, t, rfl, rfl, hchild _ rfl, ?_⟩
  rw [hchild _ rfl]
  exact count_addresses_iff roster r 10

/-- Eleven collections, of which the landing page links to ten. -/
def elevenCollections : Roster .plain where
  ids := {"a", "b", "c", "d", "e", "f", "g", "h", "i", "j", "k"}
  document id := [("id", .str id)]
  isStored _ _ := ⟨rfl, nofun, Collection.builds_plain rfl⟩
  ne_empty := by decide

theorem landingPage_children_eleven :
    let r : Request := { (default : Request) with
      baseUrl := "http://host/", url := "http://host/", method := "GET"
      openapiUrl := some "/api", docsUrl := some "/api.html" }
    let ctx : Context := ⟨.elasticsearch, .standard, [], default, false, [], .plain⟩
    ∃ page links, ((landingPage ctx default r).run elevenCollections.answer ()).1 = .ok page ∧
      page.field "links" = .arr links ∧ (addresses "child" links).length = 10 ∧
      ¬ ∀ id ∈ elevenCollections.ids, (addresses "child" links).count
        (.str (collectionAddress r id)) = 1 := by
  intro r ctx
  have hvisit : IsVisit r := ⟨Url.base_host, by decide, rfl, rfl, by decide, by decide⟩
  obtain ⟨page, links, t, hrun, hlinks, hchildren, hall⟩ :=
      landingPage_children ctx elevenCollections default r
    elevenCollections.answer () hvisit (elevenCollections.serves_answer ctx) (by decide)
  refine ⟨page, links, by rw [hrun], hlinks, ?_, fun h => absurd (hall.mp h) (by decide)⟩
  rw [hchildren, List.length_map, List.length_take, Finset.length_sort]
  rfl

end StacCatalog.Browse
