import StacCatalog.Library.Plain
import StacCatalog.Api.Search
import StacCatalog.Proofs.Json.Access

/-!
# Sort and field terms of query parameters
-/

namespace StacCatalog.SearchParameters

open Outcome List

inductive TermSign where
  | none
  | plus
  | blank
  | minus
  deriving DecidableEq

def TermSign.chars : TermSign → List Char
  | none => []
  | plus => ['+']
  | blank => [' ']
  | minus => ['-']

/-- A sign, and a name that does not begin with one. -/
structure SignedTerm where
  sign : TermSign
  first : Char
  rest : List Char
  unsigned : first ≠ '+' ∧ first ≠ '-' ∧ first ≠ ' '

namespace SignedTerm

variable (t : SignedTerm)

def name : String :=
  String.ofList (t.first :: t.rest)

def text : String :=
  String.ofList (t.sign.chars ++ t.first :: t.rest)

/-- The sort by a field in the direction of a term. -/
def sortBy (field : String) : Json :=
  .obj [("field", .str field), ("direction", .str (if t.sign = .minus then "desc" else "asc"))]

def tail : String :=
  if t.sign = .none then String.ofList t.rest else t.name

theorem sortTerm_text : sortTerm (.str t.text) = .ok (t.sortBy t.tail) := by
  obtain ⟨sign, first, rest, -, hminus, -⟩ := t
  have hsign : String.singleton first ≠ "-" :=
      fun h => hminus (by simpa using congrArg String.toList h)
  unfold sortTerm splitTerm text
  simp only [String.toList_ofList]
  cases sign <;> simp [TermSign.chars, sortBy, tail, name, hsign]

theorem sortBy_tail_eq_iff : t.sortBy t.tail = t.sortBy t.name ↔ t.sign ≠ .none := by
  unfold tail name
  split <;> simp_all [sortBy, ← String.toList_inj]

theorem addFieldTerm_text (terms : FieldTerms) :
    addFieldTerm terms (.str t.text) =
      .ok (if t.sign = .minus then { terms with excluded := terms.excluded ++ [t.name] }
          else { terms with included := terms.included ++ [t.name] }) := by
  obtain ⟨sign, first, rest, hplus, hminus, hblank⟩ := t
  cases sign with
  | none =>
    unfold addFieldTerm
    simp only [text, TermSign.chars, nil_append, String.toList_ofList]
    split <;> simp_all [name]
  | _ => simp [addFieldTerm, text, TermSign.chars, name]

end SignedTerm

/-- The parts of a value; `null` has none. -/
def listed : Json → List Json
  | .arr items => items
  | _ => []

variable (terms : List SignedTerm)

def textsOf : Json :=
  .arr (terms.map fun t => .str t.text)

theorem exists_sorts :
    ∃ sortby, whenGiven (textsOf terms)
        (fun v => do return .arr (← (← v.elements).mapM sortTerm)) = .ok sortby ∧
      listed sortby = terms.map fun t => t.sortBy t.tail := by
  have hread : (terms.map fun t => Json.str t.text).mapM sortTerm =
      .ok (terms.map fun t => t.sortBy t.tail) := by
    simp [mapM_eq_ok, SignedTerm.sortTerm_text]
  cases terms with
  | nil => exact ⟨_, rfl, rfl⟩
  | cons first rest => exact ⟨.arr _, bind_eq_ok.mpr ⟨_, rfl, bind_eq_ok.mpr ⟨_, hread, rfl⟩⟩, rfl⟩

theorem foldlM_addFieldTerm (read : FieldTerms) :
    (terms.map fun t => Json.str t.text).foldlM addFieldTerm read = .ok {
      included := read.included ++ (terms.filter (·.sign ≠ .minus)).map SignedTerm.name
      excluded := read.excluded ++ (terms.filter (·.sign = .minus)).map SignedTerm.name } := by
  induction terms generalizing read with
  | nil => simp
  | cons t rest ih =>
    rw [map_cons, foldlM_cons, SignedTerm.addFieldTerm_text, ok_bind, ih]
    by_cases hsign : t.sign = .minus <;> simp [hsign]

theorem exists_picked : ∃ picked, whenGiven (textsOf terms) fieldTerms = .ok picked ∧
    (∀ v, v ∈ listed (picked.field "include") ↔ ∃ t ∈ terms, t.sign ≠ .minus ∧ v = .str t.name) ∧
    ∀ v, v ∈ listed (picked.field "exclude") ↔ ∃ t ∈ terms, t.sign = .minus ∧ v = .str t.name := by
  have hread := foldlM_addFieldTerm terms {}
  cases terms with
  | nil => exact ⟨.null, rfl, by simp [listed, Json.field], by simp [listed, Json.field]⟩
  | cons first rest =>
    refine ⟨_, bind_eq_ok.mpr ⟨_, rfl, bind_eq_ok.mpr ⟨_, hread, rfl⟩⟩, fun v => ?_, fun v => ?_⟩
    all_goals
      show v ∈ List.map Json.str _ ↔ _
      simp only [mem_map, mem_eraseDups, nil_append, mem_filter, decide_eq_true_eq]
      grind

/-- Other terms change nothing else in a request. -/
theorem toRequest_with {library : Library} {p : SearchParameters} {request : SearchRequest}
    (h : p.toRequest library = .ok request) {terms sortby chosen picked : Json}
    (hsortby :
      whenGiven terms (fun v => do return .arr (← (← v.elements).mapM sortTerm)) = .ok sortby)
    (hpicked : whenGiven chosen fieldTerms = .ok picked) :
    ({ p with sortby := terms, fields := chosen } : SearchParameters).toRequest library =
      .ok { request with sortby := some sortby, fields := some picked } := by
  unfold toRequest at h ⊢
  by_cases hquery : p.query.truthy = true
  all_goals
    simp only [hquery, bind_eq_ok, if_true, if_false, Bool.false_eq_true] at h ⊢
    obtain ⟨query, hquery, datetime, hdatetime, intersects, hintersects, _, -, filter,
        hfilter, _, -, hrequest⟩ := h
    cases hrequest
    exact ⟨query, hquery, datetime, hdatetime, intersects, hintersects, sortby, hsortby, filter,
      hfilter, picked, hpicked, rfl⟩

/-- **Terms ask for what they say**, except that a sort term without a sign asks for another field.
-/
theorem get_by_terms (library : Library) (p : SearchParameters) (request : SearchRequest)
    (h : p.toRequest library = .ok request) (sorts fields : List SignedTerm) :
    ∃ sortby picked,
      (∀ ctx portal r, ctx.library = library →
        SearchApi.get ctx portal (fun _ => none)
            { p with sortby := textsOf sorts, fields := textsOf fields } r =
          SearchApi.post ctx portal { request with sortby := some sortby, fields := some picked }
            r) ∧
      (listed sortby = (sorts.map fun t => t.sortBy t.name) ↔ ∀ t ∈ sorts, t.sign ≠ .none) ∧
      (∀ v, v ∈ listed (picked.field "include") ↔ ∃ t ∈ fields, t.sign ≠ .minus ∧ v = .str t.name) ∧
      ∀ v,
        v ∈ listed (picked.field "exclude") ↔ ∃ t ∈ fields, t.sign = .minus ∧ v = .str t.name := by
  obtain ⟨sortby, hsortby, hsorts⟩ := exists_sorts sorts
  obtain ⟨picked, hpicked, hsides⟩ := exists_picked fields
  refine ⟨sortby, picked, fun ctx portal r hlibrary => ?_, ?_, hsides⟩
  · unfold SearchApi.get
    rw [hlibrary, toRequest_with h hsortby hpicked]
    rfl
  · rw [hsorts, map_inj_left]
    simp only [SignedTerm.sortBy_tail_eq_iff]

def idTerm (sign : TermSign) : SignedTerm :=
  ⟨sign, 'i', ['d'], by decide⟩

/-- Without a sign the id is a field that is included, and is not what is sorted by. -/
theorem get_by_terms_id :
    ∃ sortby picked,
      (∀ ctx portal r, ctx.library = .plain →
        SearchApi.get ctx portal (fun _ => none)
            { sortby := textsOf [idTerm .none], fields := textsOf [idTerm .none] } r =
          SearchApi.post ctx portal
            { limit := some (.int 10), sortby := some sortby, fields := some picked } r) ∧
      listed sortby ≠ [(idTerm .none).sortBy "id"] ∧
      .str "id" ∈ listed (picked.field "include") := by
  obtain ⟨sortby, picked, hget, hsorts, hincluded, -⟩ :=
    get_by_terms .plain {} { limit := some (.int 10) } rfl [idTerm .none] [idTerm .none]
  refine ⟨sortby, picked, hget, fun h => hsorts.mp h _ mem_cons_self rfl, ?_⟩
  exact (hincluded _).mpr ⟨_, mem_cons_self, by decide, rfl⟩

end StacCatalog.SearchParameters
