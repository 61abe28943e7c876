import StacCatalog.Proofs.Index.Names

/-!
# What an expression for indices asks the database for
-/

namespace StacCatalog

open List

variable {names : List String} {id : String} {c : Char} {n : Naming}

/-- What an index expression names. -/
inductive Target
  | name (text : String)
  /-- All names of a form. -/
  | pattern (text : String)
  /-- The names of a form are taken away again. -/
  | exclusion (text : String)
  deriving DecidableEq, Repr

namespace Target

def parts (expression : String) : List String :=
  (expression.toList.splitOn ',').map String.ofList

/-- What the parts of an expression ask for, by whether a pattern stands before them. -/
def ofParts (behindPattern : Bool) : List String → List Target
  | [] => []
  | part :: rest =>
    if behindPattern ∧ part.toList.head? = some '-' then
      .exclusion (String.ofList part.toList.tail) :: ofParts behindPattern rest
    else if '*' ∈ part.toList then .pattern part :: ofParts true rest
    else .name part :: ofParts behindPattern rest

def ofExpression (expression : String) : List Target :=
  ofParts false (parts expression)

example : ofExpression Naming.standard.allItems =
    [.pattern "items_*", .exclusion "*kibana*", .exclusion "collections*"] := by
  decide

theorem parts_intercalate (hne : names ≠ []) (h : ∀ name ∈ names, ',' ∉ name.toList) :
    parts (",".intercalate names) = names := by
  have hparts : ∀ chars ∈ names.map String.toList, ',' ∉ chars := by
    intro chars hchars
    obtain ⟨name, hname, rfl⟩ := mem_map.mp hchars
    exact h name hname
  unfold parts
  rw [String.toList_intercalate]
  show ((([','].intercalate (names.map String.toList)).splitOn ',').map String.ofList) = names
  rw [splitOn_intercalate ',' hparts (by simpa using hne), map_map]
  simp

/-- Parts without stars are names, also where they begin with a dash. -/
theorem ofParts_of_no_star (h : ∀ name ∈ names, '*' ∉ name.toList) :
    ofParts false names = names.map .name := by
  induction names with
  | nil => rfl
  | cons name rest ih =>
    have hname := h name mem_cons_self
    rw [ofParts, if_neg (by simp), if_neg hname, ih fun n hn =>
      h n (mem_cons_of_mem _ hn), map_cons]

end Target

namespace Naming

theorem of_mem_clean (h : c ∈ (clean id).toList) : c ∉ unsupported := by
  unfold clean at h
  rw [String.toList_ofList, mem_filter] at h
  simpa using h.2

/-- A character that no name may have is in an alias only if it is in what all aliases begin with.
-/
theorem notMem_aliasOf (hitems : c ∉ n.items.toList) (hc : c ∈ unsupported) (id : String) :
    c ∉ (n.aliasOf id).toList := by
  rw [aliasOf, String.toList_append, mem_append, not_or]
  exact ⟨hitems, fun h => of_mem_clean h hc⟩

theorem items_of_head?_aliasOf (h : (n.aliasOf id).toList.head? = some c) :
    n.items = "" ∨ n.items.toList.head? = some c := by
  rw [aliasOf, String.toList_append] at h
  cases hitems : n.items.toList with
  | nil => exact .inl (String.toList_eq_nil_iff.mp hitems)
  | cons d rest =>
    rw [hitems] at h
    exact .inr h

theorem indices_ofStrings (n : Naming) {ids : List String} (hids : ids ≠ []) :
    n.indices (Json.ofStrings ids) = .ok (",".intercalate (ids.map n.aliasOf)) := by
  have htruthy : (Json.ofStrings ids).truthy = true := by
    cases ids with
    | nil => exact absurd rfl hids
    | cons id rest => rfl
  unfold indices
  rw [if_pos htruthy]
  show ((ids.map Json.str).mapM n.aliasFor >>= fun aliases => pure (",".intercalate aliases)) = _
  rw [mapM_aliasFor]
  rfl

/-- **A search in given collections asks for their aliases**, one part for each, and for nothing
else. Behind what all aliases begin with, no part has a character that has a meaning of its own. -/
theorem indices_names_collections (n : Naming) (hcomma : ',' ∉ n.items.toList)
    (hstar : '*' ∉ n.items.toList) {ids : List String} (hids : ids ≠ []) :
    ∃ expression, n.indices (Json.ofStrings ids) = .ok expression ∧
      Target.parts expression = ids.map n.aliasOf ∧
      Target.ofExpression expression = (ids.map n.aliasOf).map .name ∧
      ∀ part ∈ Target.parts expression,
        (∃ rest, part = n.items ++ rest ∧
          ∀ c ∈ rest.toList, c ∉ ['\\', '/', '*', '?', '"', '<', '>', '|', ' ', ',', '#', ':']) ∧
        '*' ∉ part.toList ∧ ',' ∉ part.toList ∧
        (part.toList.head? = some '-' → n.items = "" ∨ n.items.toList.head? = some '-') := by
  have hstars : ∀ name ∈ ids.map n.aliasOf, '*' ∉ name.toList := by
    intro name hname
    obtain ⟨id, -, rfl⟩ := List.mem_map.mp hname
    exact notMem_aliasOf hstar (by decide) id
  have hcommas : ∀ name ∈ ids.map n.aliasOf, ',' ∉ name.toList := by
    intro name hname
    obtain ⟨id, -, rfl⟩ := List.mem_map.mp hname
    exact notMem_aliasOf hcomma (by decide) id
  have hparts : Target.parts (",".intercalate (ids.map n.aliasOf)) = ids.map n.aliasOf :=
    Target.parts_intercalate (by simpa using hids) hcommas
  refine ⟨_, n.indices_ofStrings hids, hparts, ?_, ?_⟩
  · rw [Target.ofExpression, hparts, Target.ofParts_of_no_star hstars]
  · rw [hparts]
    intro part hpart
    refine ⟨?_, hstars part hpart, hcommas part hpart, ?_⟩
    all_goals obtain ⟨id, -, rfl⟩ := List.mem_map.mp hpart
    · exact ⟨clean id, rfl, fun c hc => of_mem_clean hc⟩
    · exact items_of_head?_aliasOf

/-- A star, a dash and a comma in the ids of collections ask for nothing more. -/
theorem indices_names_collections_signs :
    ',' ∉ standard.items.toList ∧ '*' ∉ standard.items.toList ∧ ["*", "-a", "b,*"] ≠ [] ∧
      ∃ expression, standard.indices (Json.ofStrings ["*", "-a", "b,*"]) = .ok expression ∧
        Target.ofExpression expression = [.name "items_", .name "items_-a", .name "items_b"] := by
  obtain ⟨expression, hindices, -, htargets, -⟩ := standard.indices_names_collections
      (by decide) (by decide)
    (List.cons_ne_nil "*" ["-a", "b,*"])
  exact ⟨by decide, by decide, by decide, expression, hindices, htargets.trans (by decide)⟩

end Naming

end StacCatalog
