import StacCatalog.Proofs.Aggregation.Admission

/-!
# Which collections an aggregation searches in
-/

namespace StacCatalog

open Program AggregateApi Criteria List

variable {σ : Type}

/-- What the path of a request is taken to name, and when that is what it names. -/
theorem exists_taken {root : List String} {named : Option String}
    (hslash : ∀ segment ∈ root ++ segmentsOf named, '/' ∉ segment.toList)
    (hnamed : named ≠ some "") :
    ∃ collection taken, pathNamed (route root named) = .ok collection ∧ Names collection taken ∧
      (taken = named ↔ ¬ "collections".toList <:+: (route root named).toList ∨
        (root ++ segmentsOf named)[1]? = some (named.getD "")) := by
  unfold pathNamed
  by_cases hspeaks : Json.occursIn "collections".toList (route root named).toList = true
  · obtain ⟨first, second, rest, hsegments⟩ : ∃ first second rest, root ++ segmentsOf named =
      first :: second :: rest := by
      rcases root with _ | ⟨first, _ | ⟨second, rest⟩⟩ <;> rcases named with _ | id
      · exact absurd hspeaks (by decide +kernel)
      all_goals exact ⟨_, _, _, rfl⟩
    rw [if_pos hspeaks, pathCollection_route hsegments hslash, hsegments, ← Json.occursIn_iff]
    refine ⟨_, if second = "" then none else some second, rfl, ?_, ?_⟩
    · by_cases hempty : second = "" <;> simp [hempty, Names]
      rfl
    · simp only [hspeaks, not_true, false_or, getElem?_cons_succ, getElem?_cons_zero,
        Option.some.injEq]
      cases named <;> grind
  · refine ⟨.null, none, if_neg hspeaks, rfl, ?_⟩
    cases named with
    | none => exact iff_of_true rfl (.inl fun h => hspeaks (Json.occursIn_iff.mpr h))
    | some id => exact absurd (occursIn_route root id) hspeaks

namespace Enquiry

variable {e : Enquiry} {named : Option String} {answer : Answering σ}
    {ctx : Context} {s : σ}

/-- The clauses of a search tell the collections that it is made in. -/
theorem clausesIn_inj {ids other : List String} {shape : List Clause} {backend : Backend}
    {query : Option Query}
    (h : e.clausesIn ids shape backend query = e.clausesIn other shape backend query) :
    ids = other := by
  have hclauses : inScope ids = inScope other := append_cancel_left (append_cancel_right h)
  cases ids <;> cases other <;> simp_all [inScope, Json.ofStrings, map_inj_right]

/-- **A request searches in the collections it is about** exactly if its path speaks of none, or its
second segment is the collection. -/
theorem searches_in_scope_iff (hanswer : Steady answer)
    (hdescribed : ∀ id, Described answer ctx s id) {root : List String}
    (hslash : ∀ segment ∈ root ++ segmentsOf named, '/' ∉ segment.toList)
    (hnamed : named ≠ some "") {r : Request} (hpath : ctx.library.urlPath r.url = route root named)
    (hbase : Url.Base r.baseUrl) (searched : List String) {shape : List Clause}
    (hshape : e.criteria.shapeClauses ctx.library = .ok shape) {query : Option Query}
    (hquery : Searching.translated answer ctx s (e.criteria.filter.elim .null .obj) = .ok query)
    (hadmissible : e.Admissible named answer ctx s)
    (hstored : ∀ id ∈ e.scope named, Stored answer ctx s id) :
    (∃ sent, EndsWith answer Call.Look (post ctx e.request .null (Json.ofStrings searched) r) s
        [.aggregate sent] ∧
      sent.search.clauses = e.clausesIn (e.scope named) shape ctx.backend query) ↔
    ¬ "collections".toList <:+: (ctx.library.urlPath r.url).toList ∨
      (root ++ segmentsOf named)[1]? = some (named.getD "") := by
  obtain ⟨collection, taken, hread, hnames, hiff⟩ := exists_taken hslash hnamed
  rw [hpath, ← hiff]
  rcases reaches_post (e := e) hanswer hdescribed (hpath ▸ hread) hnames hbase searched hquery with
    ⟨sent, hsent, shape', hshape', -, hclauses⟩ | ⟨fault, hfault, hended⟩
  · cases hshape.symm.trans hshape'
    constructor
    · rintro ⟨other, hother, hscope⟩
      cases hsent.unique hother
      have hsame := append_cancel_right (clausesIn_inj (hclauses.symm.trans hscope))
      cases taken <;> cases named <;> simp_all
    · rintro rfl
      exact ⟨sent, hsent, hclauses⟩
  · constructor
    · rintro ⟨sent, hsent, -⟩
      exact absurd (hsent.of_asks hfault _ mem_cons_self) id
    · rintro rfl
      rcases hended with hstopped | hunread
      · exact absurd ⟨hadmissible, hstored⟩ hstopped.lacks
      · cases hshape.symm.trans hunread

/-- The same request searches in the collection at the root of the host, and in nothing behind
another root. -/
theorem searches_in_scope_iff_byGrid :
    (∃ sent, EndsWith holding Call.Look (gridAt (byGrid 12) "collections/a/aggregate") ()
        [.aggregate sent] ∧
      sent.search.clauses = (byGrid 12).clausesIn ["a"] [] .elasticsearch none) ∧
    ¬ ∃ sent, EndsWith holding Call.Look (gridAt (byGrid 12) "v1/collections/a/aggregate") ()
        [.aggregate sent] ∧
      sent.search.clauses = (byGrid 12).clausesIn ["a"] [] .elasticsearch none := by
  have hdecided (root : List String)
      (hslash : ∀ segment ∈ root ++ segmentsOf (some "a"), '/' ∉ segment.toList) (path : String)
      (hpath : noon.library.urlPath (atRoot path).url = route root (some "a")) :=
    searches_in_scope_iff (e := byGrid 12) (fun _ _ _ => rfl) (described_holding noon) hslash
      (by decide) hpath Url.base_host []
      (rfl : (byGrid 12).criteria.shapeClauses noon.library = .ok [])
      (rfl : Searching.translated holding noon () .null = .ok none)
      ((admissible_byGrid _ _).mpr (by decide))
      (by simp [scope, Criteria.scope, byGrid, stored_holding])
  refine ⟨(hdecided [] (by decide) "collections/a/aggregate" (by decide +kernel)).mpr (.inr rfl),
    fun h => ?_⟩
  rcases (hdecided ["v1"] (by decide) "v1/collections/a/aggregate" (by decide +kernel)).mp h with
    hspeaks | hsecond
  · exact hspeaks (Json.occursIn_iff.mp (by decide +kernel))
  · exact absurd hsecond (by decide)

end Enquiry

end StacCatalog
