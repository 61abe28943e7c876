import StacCatalog.Links
import StacCatalog.Proofs.Url.Parameters

/-!
# Setting parameters of a URL changes nothing else in it
-/

namespace StacCatalog.Url

open List

variable {params : List (String × String)} {p : Parts}

/-! ### Queries -/

def textParams (params : List (String × String)) : Fields :=
  params.map (Prod.map id .str)

/-- Texts as the values of parameters that are read: each is the only one of its name. -/
def readParams (params : List (String × String)) : Fields :=
  params.map (Prod.map id fun text => .arr [.str text])

theorem writable_set (query : List Char) (h : ∀ entry ∈ params, entry.2 ≠ "") :
    Writable (Fields.insertAll (readQuery query) (textParams params)) := by
  refine (gathered_readQuery query).toWritable.insertAll fun entry hentry => ?_
  obtain ⟨⟨name, text⟩, hmem, rfl⟩ := mem_map.mp hentry
  exact marked_text (h _ hmem)

/-- **A query with parameters set** is read as its parameters with those set. -/
theorem readQuery_set (query : List Char) (h : ∀ entry ∈ params, entry.2 ≠ "") :
    readQuery (writeQuery (Fields.insertAll (readQuery query) (textParams params))) =
      Fields.insertAll (readQuery query) (readParams params) := by
  have hparams : (textParams params).map (Prod.map id gathered) = readParams params := by
    rw [textParams, map_map]
    rfl
  rw [readQuery_writeQuery (writable_set query h), Fields.map_insertAll,
    (gathered_readQuery query).map_gathered, hparams]

theorem set_set (query : List Char) (params : List (String × String)) :
    Fields.insertAll (Fields.insertAll (readQuery query) (readParams params)) (textParams params) =
      Fields.insertAll (readQuery query) (textParams params) := by
  refine Fields.insertAll_insertAll (gathered_readQuery query).nodup ?_
  rw [Fields.names, Fields.names, readParams, textParams, map_map, map_map]
  rfl

/-! ### URLs -/

theorem notMem_breaks_of_isWritten {c : Char} (h : isWritten c = true) : c ∉ breaks := by
  intro hbreak
  simp only [breaks, mem_cons, not_mem_nil, or_false] at hbreak
  rcases hbreak with rfl | rfl | rfl <;> exact absurd h (by decide)

theorem Hosted.setQuery (h : Hosted p) (params : Fields) :
    Hosted { p with query := writeQuery params } := by
  have hparts := h.unbroken
  simp only [forall_mem_append] at hparts
  obtain ⟨⟨hfront, -⟩, hfragment⟩ := hparts
  refine { h with query_chars := ?_, unbroken := ?_ }
  · intro hmem
    rcases isWritten_of_mem_writeQuery hmem with hwritten | heq | heq
    · exact absurd hwritten (by decide)
    · cases heq
    · cases heq
  · simp only [forall_mem_append]
    refine ⟨⟨hfront, fun c hc => ?_⟩, hfragment⟩
    rcases isWritten_of_mem_writeQuery hc with hwritten | rfl | rfl
    · exact notMem_breaks_of_isWritten hwritten
    · decide
    · decide

theorem setParams_of_read {url : String} (h : Parts.read [] url.toList = .ok p) (params : Fields) :
    setParams url params =
      .ok (String.ofList
          { p with query := writeQuery (Fields.insertAll (readQuery p.query) params) }.write) := by
  rw [setParams, h]
  rfl

/-- A URL with the parts of another one, but for some parameters of its query; it has them already
when they are set again. -/
structure Repeats (p : Parts) (params : List (String × String)) (url : String) : Prop where
  read : ∃ query, Parts.read [] url.toList = .ok { p with query } ∧
    readQuery query = Fields.insertAll (readQuery p.query) (readParams params)
  again : setParams url (textParams params) = .ok url

/-- The URL that is written when parameters of a web address are set. -/
theorem Hosted.repeats (h : Hosted p) (hparams : ∀ entry ∈ params, entry.2 ≠ "") :
    Repeats p params (String.ofList { p with
      query := writeQuery (Fields.insertAll (readQuery p.query) (textParams params)) }.write) := by
  set query := writeQuery (Fields.insertAll (readQuery p.query) (textParams params)) with hquery
  have hread : Parts.read [] (String.ofList { p with query }.write).toList =
      .ok { p with query } := by
    rw [String.toList_ofList]
    exact (h.setQuery _).read_write
  have hset : readQuery query = Fields.insertAll (readQuery p.query) (readParams params) :=
    readQuery_set p.query hparams
  refine ⟨⟨query, hread, hset⟩, ?_⟩
  rw [setParams_of_read hread]
  show Except.ok (String.ofList
    { p with query := writeQuery (Fields.insertAll (readQuery query) _) }.write) = _
  rw [hset, set_set, ← hquery]

/-- **Setting parameters of a web address**, texts that are not empty, changes its query only, and
there only what is set; and so does the link from a page to the next one, which sets the token. -/
theorem repeats_setParams {url : String} {p : Parts} (hread : Parts.read [] url.toList = .ok p)
    (hscheme : p.scheme = ['h', 't', 't', 'p'] ∨ p.scheme = ['h', 't', 't', 'p', 's'])
    (hhost : p.host ≠ []) :
    (∀ params : List (String × String),
      (∀ entry ∈ params, entry.2 ≠ "") →
      ∃ next, setParams url (textParams params) = .ok next ∧ Repeats p params next) ∧
    ∀ (r : Request) (token : String), r.url = url → r.method = "GET" → token ≠ "" →
      ∃ next,
        Links.next r (.str token) =
          .ok [.obj [("rel", .str "next"), ("type", .str Links.json), ("method", .str "GET"),
                ("href", .str next)]] ∧
        Repeats p [("token", token)] next := by
  have hhosted := hosted_of_read hread hscheme hhost
  refine ⟨fun params hparams => ⟨_, setParams_of_read hread _, hhosted.repeats hparams⟩, ?_⟩
  intro r token hurl hmethod htoken
  have hparams : ∀ entry ∈ [("token", token)], entry.2 ≠ "" := by simpa using htoken
  refine ⟨_, ?_, hhosted.repeats hparams⟩
  have hset := setParams_of_read hread [("token", .str token)]
  rw [Links.next, hurl, hmethod, hset]
  rfl

/-- A text with marks of its own takes the place of an old one, beside a parameter with two values,
one that cannot be decoded and one without a value. -/
theorem repeats_setParams_marks :
    let url := "HTTPS://Example.org:81/a;v/b;x=1?q=caf%C3%A9+au&q=2&token=old&bad=%zz%ff&none=#top"
    let p : Parts := ⟨"https".toList, "Example.org:81".toList, "/a;v/b".toList, "x=1".toList,
      "q=caf%C3%A9+au&q=2&token=old&bad=%zz%ff&none=".toList, "top".toList⟩
    let params := [("token", "a&b=c d/é#+%"), ("ï?", "\n")]
    Parts.read [] url.toList = .ok p ∧ p.host ≠ [] ∧
      ∃ next, setParams url (textParams params) = .ok next ∧ Repeats p params next := by
  intro url p params
  have hread : Parts.read [] url.toList = .ok p := by decide +kernel
  exact ⟨hread, by decide, (repeats_setParams hread (Or.inr rfl) (by decide)).1 params (by decide)⟩

end StacCatalog.Url
