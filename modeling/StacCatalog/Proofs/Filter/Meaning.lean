import StacCatalog.Filter.Basic
import StacCatalog.Index.Mapping
import StacCatalog.Proofs.Json.Access
import StacCatalog.Proofs.Query.Meaning

/-!
# Translating a filter keeps its meaning
-/

namespace StacCatalog

open Outcome Query

variable {known fields : Fields} {learnt : Fields × Json} {v : Json} {op name : String}
    {args : List Json}
  {check : Filter → Outcome Unit} {f : Filter}

namespace Filter

/-! ### What a filter says -/

/-- The field that a property is read from: the one the mapping names, else the one of the same
name. -/
def fieldName (mapping : Mapping) (property : String) : String :=
  ((Fields.get? mapping property).bind Json.str?).getD property

def ordered (op : Comparison) (order : Option Ordering) : Bool :=
  match op with
  | .eq => order == some .eq
  | .neq => order != some .eq
  | .lt => order == some .lt
  | .lte => order == some .lt || order == some .eq
  | .gt => order == some .gt
  | .gte => order == some .gt || order == some .eq

section

variable {δ : Type} (db : Reading δ) (mapping : Mapping) (doc : δ)

def valueOf (property : Json) : Option Json :=
  property.str?.bind fun name => db.value? doc (fieldName mapping name)

/-- Whether a property compares as asked with a value. Of a property that is not there no comparison
is true, and to differ is not to be equal. -/
def compares (op : Comparison) (property value : Json) : Bool :=
  match op with
  | .neq => !(valueOf db mapping doc property).any fun v => ordered .eq (db.compare? v value)
  | op => (valueOf db mapping doc property).any fun v => ordered op (db.compare? v value)

mutual

/-- Whether a filter is true of a document. -/
def holds : Filter → Bool
  | .junction .and parts => holdAll parts
  | .junction .or parts => holdAny parts
  | .junction .not [part] => !holds part
  | .compare op property operand => compares db mapping doc op property operand.json
  | .isNull property => !(valueOf db mapping doc property).any fun v => !v.isNull
  | .between property low high =>
    compares db mapping doc .gte property low.json &&
      compares db mapping doc .lte property high.json
  | .oneOf property values => values.any fun value => compares db mapping doc .eq property value
  | .spatial relation property geometry =>
    (valueOf db mapping doc property).any fun v => db.relates relation v geometry
  | _ => false

def holdAll : List Filter → Bool
  | [] => true
  | f :: rest => holds f && holdAll rest

def holdAny : List Filter → Bool
  | [] => false
  | f :: rest => holds f || holdAny rest

end

end

/-! ### How a filter is written -/

/-- The value is an object with an operator and arguments. -/
def Applies (v : Json) (op : String) (args : List Json) : Prop :=
  ∃ fields, v = .obj fields ∧ Fields.get? fields "op" = some (.str op) ∧
    Fields.get? fields "args" = some (.arr args)

def Names (v : Json) (property : Json) : Prop :=
  ∃ fields name, v = .obj fields ∧ Fields.get? fields "property" = some (.str name) ∧
    property = .str name

def IsScalar : Json → Prop
  | .arr _ | .obj _ => False
  | _ => True

/-- The value stands for an operand: a scalar for itself, an object with a time stamp for that. -/
def Stands (v : Json) : Operand → Prop
  | .value w => v = w ∧ IsScalar w
  | .timestamp t => ∃ fields, v = .obj fields ∧ Fields.get? fields "timestamp" = some t

def Fits (how : Junction) (parts : List Filter) : Prop :=
  match how with
  | .and | .or => parts ≠ []
  | .not => ∃ part, parts = [part]

def junctionName : Junction → String
  | .and => "and"
  | .or => "or"
  | .not => "not"

def comparisonName : Comparison → String
  | .eq => "="
  | .neq => "<>"
  | .lt => "<"
  | .lte => "<="
  | .gt => ">"
  | .gte => ">="

def spatialName : Relation → String
  | .intersects => "s_intersects"
  | .contains => "s_contains"
  | .within => "s_within"
  | .disjoint => "s_disjoint"

mutual

def Written (v : Json) : Filter → Prop
  | .junction how parts =>
    ∃ items, Applies v (junctionName how) items ∧ Fits how parts ∧ WrittenAll items parts
  | .compare op property operand =>
    ∃ a b, Applies v (comparisonName op) [a, b] ∧ Names a property ∧ Stands b operand
  | .isNull property => ∃ a, Applies v "isNull" [a] ∧ Names a property
  | .between property low high =>
    ∃ a b c, Applies v "between" [a, b, c] ∧ Names a property ∧ Stands b low ∧ Stands c high
  | .oneOf property values =>
    ∃ a, Applies v "in" [a, .arr values] ∧ Names a property ∧ ∀ value ∈ values, IsScalar value
  | .spatial relation property geometry =>
    ∃ a, Applies v (spatialName relation) [a, geometry] ∧ Names a property
  | .like .. | .unknown => False

def WrittenAll : List Json → List Filter → Prop
  | [], [] => True
  | v :: vs, f :: fs => Written v f ∧ WrittenAll vs fs
  | _, _ => False

end

/-! ### Reading what is written -/

/-- The mapping gives every property it knows the name of a field. -/
def Textual (mapping : Mapping) : Prop :=
  ∀ property value, Fields.get? mapping property = some value → ∃ name, value = .str name

theorem Textual.foldl_insert {ι : Type} {property name : ι → String} (entries : List ι)
    {mapping : Mapping} (hm : Textual mapping) :
    Textual (entries.foldl (fun acc entry => Fields.insert acc (property entry) (.str (name entry)))
        mapping) := by
  induction entries generalizing mapping with
  | nil => exact hm
  | cons entry rest ih =>
    refine ih fun other value h => ?_
    rw [Fields.get?_insert] at h
    split at h
    · exact ⟨_, (Option.some.inj h).symm⟩
    · exact hm other value h

theorem Textual.indexQueryables (hm : Textual known) {mapping : Json}
    (h : Mapping.indexQueryables known mapping = .ok learnt) : Textual learnt.1 := by
  simp only [Mapping.indexQueryables, bind_eq_ok] at h
  obtain ⟨inner, -, fields, -, ⟨properties, rest⟩, htake, nested, -, below, -, top,
      helements, left, -, h⟩ := h
  -- What is left of an object is an object, so its elements are the names of its members.
  cases fields with
  | obj entries =>
    simp only [Mapping.takeProperties, Except.ok.injEq, Prod.mk.injEq] at htake
    obtain ⟨-, rfl⟩ := htake
    simp only [Json.elements, Except.ok.injEq] at helements
    subst helements
    obtain rfl := (Except.ok.inj h).symm
    rw [List.foldl_map]
    exact (hm.foldl_insert _).foldl_insert _
  | _ => cases htake

theorem Textual.allQueryables {entries : List (String × Json)} (hm : Textual known)
    {learnt : Fields × Fields} (h : Mapping.allQueryables known entries = .ok learnt) :
    Textual learnt.1 := by
  induction entries generalizing known learnt with
  | nil =>
    obtain rfl := Except.ok.inj h
    exact hm
  | cons entry rest ih =>
    simp only [Mapping.allQueryables, bind_eq_ok] at h
    obtain ⟨first, hfirst, others, hothers, h⟩ := h
    obtain rfl := Except.ok.inj h
    exact (ih (hm.indexQueryables hfirst) hothers :)

theorem textual_queryables {mappings : Json} (h : Mapping.queryables mappings = .ok learnt) :
    Textual learnt.1 := by
  cases mappings with
  | obj entries =>
    simp only [Mapping.queryables, bind_eq_ok] at h
    obtain ⟨all, hentries, h⟩ := h
    obtain rfl := Except.ok.inj h
    exact Textual.allQueryables (fun _ _ h => by cases h) hentries
  | _ => cases h

theorem field_str {mapping : Mapping} (hm : Textual mapping) (name : String) :
    field mapping (.str name) = .str (fieldName mapping name) := by
  simp only [field, fieldName]
  cases h : Fields.get? mapping name with
  | none => rfl
  | some value =>
    obtain ⟨target, rfl⟩ := hm name value h
    rfl

theorem argument_of_applies {a : Json} (h : Applies v op args) (i : Nat) (hi : args[i]? = some a) :
    argument v i = .ok a := by
  obtain ⟨fields, rfl, -, hargs⟩ := h
  rw [argument, Json.item_of_get? hargs, ok_bind, Json.nth_of_getElem? hi]

theorem property_of_applies {a property : Json} (h : Applies v op (a :: args))
    (ha : Names a property) : Filter.property v = .ok property := by
  obtain ⟨fields, name, rfl, hname, rfl⟩ := ha
  rw [Filter.property, argument_of_applies h 0 rfl, ok_bind, Json.item_of_get? hname]
  rfl

theorem operand_of_stands {operand : Operand} (h : Stands v operand) :
    Filter.operand v = operand := by
  cases operand with
  | value w =>
    obtain ⟨rfl, hscalar⟩ := h
    cases v with
    | obj fields => exact absurd hscalar (by simp [IsScalar])
    | _ => rfl
  | timestamp t =>
    obtain ⟨fields, rfl, ht⟩ := h
    simp only [Filter.operand, ht]

theorem readArguments_of_get? (h : Fields.get? fields "args" = some v) :
    readArguments check fields = readParts check v := by
  induction fields with
  | nil => cases h
  | cons entry rest ih =>
    obtain ⟨name, value⟩ := entry
    rw [Fields.get?, Keyed.lookup_cons] at h
    rw [readArguments]
    by_cases hname : name = "args"
    · rw [if_pos hname.symm, Option.some.injEq] at h
      rw [if_pos hname, h]
    · rw [if_neg (Ne.symm hname)] at h
      rw [if_neg hname]
      exact ih h

theorem operatorOf_of_get? (h : Fields.get? fields "op" = some (.str name)) :
    operatorOf fields = .ok (FilterOp.ofName? name) := by
  rw [operatorOf, Json.item_of_get? h]
  rfl

theorem read_of_leaf {op : FilterOp} (h : Applies v name args)
    (hop : FilterOp.ofName? name = some op) (hleaf : ∀ how, op ≠ .junction how)
    (hread : readLeaf op v = .ok f) (hcheck : check f = .ok ()) : read check v = .ok f := by
  obtain ⟨fields, rfl, hname, -⟩ := h
  rw [read, operatorOf_of_get? hname, hop]
  cases op with
  | junction how => exact absurd rfl (hleaf how)
  | _ =>
    simp only [hread, ok_bind, hcheck]
    rfl

/-- A filter that is about one property passes the check: the field of the property is a text. -/
theorem usable_of_names {mapping : Mapping} (hm : Textual mapping) {a property : Json}
    (ha : Names a property) (h : ∀ key ∈ (f.query mapping).keys, key = field mapping property) :
    usable mapping f = .ok () := by
  obtain ⟨-, name, -, -, rfl⟩ := ha
  rw [field_str hm] at h
  unfold usable
  generalize (f.query mapping).keys = keys at h
  induction keys with
  | nil => rfl
  | cons key rest ih =>
    obtain rfl := h key List.mem_cons_self
    exact ih fun other hother => h other (List.mem_cons_of_mem _ hother)

mutual

/-- **What is written is read back**, and passes every check on the way. -/
theorem read_written {mapping : Mapping} (hm : Textual mapping) :
    ∀ {f : Filter} {v : Json}, Written v f → read (usable mapping) v = .ok f
  | .junction how parts, v, h => by
    obtain ⟨items, ⟨fields, rfl, hname, hargs⟩, -, hparts⟩ := h
    have hop : FilterOp.ofName? (junctionName how) = some (.junction how) := by cases how <;> rfl
    rw [read, operatorOf_of_get? hname, hop]
    simp only [readArguments_of_get? hargs, readParts, readItems_written hm hparts]
  | .compare op property operand, v, h => by
    obtain ⟨a, b, happ, ha, hb⟩ := h
    -- A leaf is read from its arguments, and passes the check since its fields are names.
    have hop : FilterOp.ofName? (comparisonName op) = some (.compare op) := by cases op <;> rfl
    have hread : readLeaf (.compare op) v = .ok (.compare op property operand) := by
      rw [readLeaf, property_of_applies happ ha, ok_bind]
      simp only [argument_of_applies happ 1 rfl, ok_bind, operand_of_stands hb]
      rfl
    refine read_of_leaf happ hop (by simp) hread (usable_of_names hm ha ?_)
    cases op <;> cases operand <;> simp [query, comparison, equals, keys, partsKeys]
  | .isNull property, v, h => by
    obtain ⟨a, happ, ha⟩ := h
    have hread : readLeaf .isNull v = .ok (.isNull property) := by
      rw [readLeaf, property_of_applies happ ha, ok_bind]
      rfl
    exact read_of_leaf happ rfl (by simp) hread
      (usable_of_names hm ha (by simp [query, keys]))
  | .between property low high, v, h => by
    obtain ⟨a, b, c, happ, ha, hb, hc⟩ := h
    have hread : readLeaf .between v = .ok (.between property low high) := by
      rw [readLeaf, property_of_applies happ ha, ok_bind]
      simp only [argument_of_applies happ 1 rfl, argument_of_applies happ 2 rfl, ok_bind,
        operand_of_stands hb, operand_of_stands hc]
      rfl
    exact read_of_leaf happ rfl (by simp) hread
      (usable_of_names hm ha (by simp [query, keys]))
  | .oneOf property values, v, h => by
    obtain ⟨a, happ, ha, -⟩ := h
    have hread : readLeaf .oneOf v = .ok (.oneOf property values) := by
      rw [readLeaf, property_of_applies happ ha, ok_bind, argument_of_applies happ 1 rfl]
      rfl
    exact read_of_leaf happ rfl (by simp) hread
      (usable_of_names hm ha (by simp [query, keys]))
  | .spatial relation property geometry, v, h => by
    obtain ⟨a, happ, ha⟩ := h
    have hop : FilterOp.ofName? (spatialName relation) =
        some (.spatial relation) := by cases relation <;> rfl
    have hread : readLeaf (.spatial relation) v = .ok (.spatial relation property geometry) := by
      rw [readLeaf, property_of_applies happ ha, ok_bind]
      simp only [argument_of_applies happ 1 rfl, ok_bind]
      rfl
    exact read_of_leaf happ hop (by simp) hread
      (usable_of_names hm ha (by simp [query, keys]))
  | .like _ _, _, h | .unknown, _, h => by simp [Written] at h

theorem readItems_written {mapping : Mapping} (hm : Textual mapping) :
    ∀ {parts : List Filter} {items : List Json}, WrittenAll items parts →
      readItems (usable mapping) items = .ok parts
  | [], [], _ => rfl
  | part :: parts, v :: items, h => by
    obtain ⟨hv, hrest⟩ := h
    rw [readItems, read_written hm hv, ok_bind, readItems_written hm hrest]
    rfl
  | [], _ :: _, h | _ :: _, [], h => by simp [WrittenAll] at h

end

/-! ### The query says the same -/

section

variable {δ : Type} (db : Reading δ) (doc : δ) {mapping : Mapping}

theorem between_iff_eq (order : Option Ordering) :
    ((order == some .gt || order == some .eq) && (order == some .lt || order == some .eq)) =
      (order == some .eq) := by
  rcases order with _ | _ | _ | _ <;> rfl

/-- Equality is asked for by value or, with a time stamp, by an interval of one instant. -/
theorem accepts_equals (field : String) (operand : Operand) :
    Query.accepts db doc (equals (.str field) operand).toJson =
      (db.value? doc field).any fun v => db.compare? v operand.json == some .eq := by
  cases operand with
  | value w => simp [equals, Operand.json]
  | timestamp t => simp [equals, Operand.json, meetsBound, Bound.name, between_iff_eq]

theorem accepts_comparison (hm : Textual mapping) (op : Comparison) (name : String)
    (operand : Operand) :
    Query.accepts db doc (comparison op (field mapping (.str name)) operand).toJson =
      compares db mapping doc op (.str name) operand.json := by
  rw [field_str hm]
  cases op with
  | eq => simp [comparison, accepts_equals, compares, valueOf, Json.str?, ordered]
  | neq =>
    simp [comparison, compares, valueOf, Json.str?, ordered, partsJson, acceptsAny,
      accepts_equals]
  | _ => simp [comparison, compares, valueOf, Json.str?, ordered, meetsBound, Bound.name]

theorem accepts_between (hm : Textual mapping) (name : String) (low high : Operand) :
    Query.accepts db doc (query mapping (.between (.str name) low high)).toJson =
      (compares db mapping doc .gte (.str name) low.json &&
        compares db mapping doc .lte (.str name) high.json) := by
  rw [query, field_str hm, accepts_range]
  simp only [compares, valueOf, Json.str?, Option.bind_some, ordered]
  cases db.value? doc (fieldName mapping name) with
  | none => rfl
  | some v => simp [meetsBound, Bound.name]

mutual

/-- **The query of a filter is accepted exactly where the filter holds**: by induction on the
filter, one case for each operator. -/
theorem accepts_query (hm : Textual mapping) : ∀ {f : Filter} {v : Json}, Written v f →
    Query.accepts db doc (f.query mapping).toJson = f.holds db mapping doc
  | .junction .and parts, _, h => by
    obtain ⟨items, -, -, hparts⟩ := h
    rw [query, accepts_all, holds]
    exact (accepts_queries hm hparts).1
  | .junction .or parts, _, h => by
    obtain ⟨items, -, -, hparts⟩ := h
    rw [query, accepts_any, holds]
    exact (accepts_queries hm hparts).2
  | .junction .not parts, _, h => by
    obtain ⟨items, -, ⟨part, rfl⟩, hparts⟩ := h
    rw [query, accepts_none, holds, (accepts_queries hm hparts).2]
    simp [holdAny]
  | .compare op property operand, _, h => by
    obtain ⟨a, b, -, ⟨-, name, -, -, rfl⟩, -⟩ := h
    rw [query, holds]
    exact accepts_comparison db doc hm op name operand
  | .isNull property, _, h => by
    obtain ⟨a, -, ⟨-, name, -, -, rfl⟩⟩ := h
    rw [query, holds, field_str hm, accepts_not_exists]
    rfl
  | .between property low high, _, h => by
    obtain ⟨a, b, c, -, ⟨-, name, -, -, rfl⟩, -⟩ := h
    rw [holds]
    exact accepts_between db doc hm name low high
  | .oneOf property values, _, h => by
    obtain ⟨a, -, ⟨-, name, -, -, rfl⟩, -⟩ := h
    rw [query, holds, field_str hm, accepts_terms]
    simp only [compares, valueOf, Json.str?, Option.bind_some, ordered]
    cases db.value? doc (fieldName mapping name) with
    | none => simp
    | some v => rfl
  | .spatial relation property geometry, _, h => by
    obtain ⟨a, -, ⟨-, name, -, -, rfl⟩⟩ := h
    rw [query, holds, field_str hm, accepts_shape]
    rfl
  | .like _ _, _, h | .unknown, _, h => by simp [Written] at h

theorem accepts_queries (hm : Textual mapping) :
    ∀ {parts : List Filter} {items : List Json}, WrittenAll items parts →
      Query.acceptsAll db doc (Query.partsJson (queries mapping parts)) =
        holdAll db mapping doc parts ∧ Query.acceptsAny db doc
        (Query.partsJson (queries mapping parts)) = holdAny db mapping doc parts
  | [], [], _ => ⟨rfl, rfl⟩
  | part :: parts, v :: items, h => by
    obtain ⟨hall, hany⟩ := accepts_queries hm h.2
    rw [queries, partsJson, acceptsAll, acceptsAny, holdAll, holdAny,
      accepts_query hm h.1, hall, hany]
    exact ⟨rfl, rfl⟩
  | [], _ :: _, h | _ :: _, [], h => by simp [WrittenAll] at h

end

end

/-- A written filter is translated to its query. -/
theorem translate_written {mapping : Mapping} (hm : Textual mapping) {f : Filter} {v : Json}
    (h : Written v f) : translate mapping v = .ok (f.query mapping) := by
  rw [translate, read_written hm h]
  rfl

/-- **Translating keeps the meaning.** Whatever a database knows about its documents, every value
that writes a filter is translated without a fault, and the query that is sent accepts exactly the
documents of which the filter is true. -/
theorem translate_accepts_iff_holds {δ : Type} (db : Reading δ) (mapping : Mapping)
    (hm : Textual mapping) (f : Filter) (v : Json) (h : Written v f) (doc : δ) :
    ∃ q, translate mapping v = .ok q ∧
      (Query.accepts db doc q.toJson = true ↔ f.holds db mapping doc = true) := by
  refine ⟨f.query mapping, translate_written hm h, ?_⟩
  rw [accepts_query db doc hm h]

/-- **The names that a database tells** can be used: with what is learnt from the fields of its
indices, every filter is translated, and accepts the documents of which it is true. -/
theorem translate_queryables {δ : Type} (db : Reading δ) {mappings : Json}
    (hlearnt : Mapping.queryables mappings = .ok learnt) {f : Filter} {v : Json} (h : Written v f) :
    ∃ q, translate learnt.1 v = .ok q ∧
      ∀ doc, Query.accepts db doc q.toJson = true ↔ f.holds db learnt.1 doc = true := by
  have hm := textual_queryables hlearnt
  refine ⟨f.query learnt.1, translate_written hm h, fun doc => ?_⟩
  rw [accepts_query db doc hm h]

/-- Documents as lists of fields, compared by the values of texts and numbers; no shape lies to
another. -/
def flatReading : Reading Fields where
  value? := Fields.get?
  compare? a b := (a.order "<" b).toOption.join
  relates _ _ _ := false

def neitherDayNorOther : Json :=
  .obj [("op", .str "not"), ("args", .arr [.obj [
    ("args", .arr [
      .obj [("op", .str "="), ("args", .arr [.single "property" (.str "datetime"),
        .single "timestamp" (.str "2024-05-06T00:00:00Z")])],
      .obj [("op", .str "<>"), ("args", .arr [.single "property" (.str "gsd"), .int 10])]]),
    ("op", .str "or")]])]

/-- An item of the next day with that resolution is accepted. -/
theorem translate_accepts_iff_holds_nested :
    ∃ q, translate [("datetime", .str "properties.datetime")] neitherDayNorOther = .ok q ∧
      Query.accepts flatReading
          [("properties.datetime", .str "2024-05-07T00:00:00Z"), ("gsd", .int 10)] q.toJson =
        true := by
  have hm : Textual [("datetime", .str "properties.datetime")] := by
    intro property value h
    rw [Fields.get?, Keyed.lookup_cons] at h
    split at h
    · exact ⟨_, (Option.some.inj h).symm⟩
    · cases h
  have hwritten : Written neitherDayNorOther (.junction .not [.junction .or [
      .compare .eq (.str "datetime") (.timestamp (.str "2024-05-06T00:00:00Z")),
      .compare .neq (.str "gsd") (.value (.int 10))]]) := by
    refine ⟨_, ⟨_, rfl, rfl, rfl⟩, ⟨_, rfl⟩,
      ⟨_, ⟨_, rfl, rfl, rfl⟩, by simp [Fits], ?_, ?_, trivial⟩, trivial⟩
    · exact ⟨_, _, ⟨_, rfl, rfl, rfl⟩, ⟨_, _, rfl, rfl, rfl⟩, ⟨_, rfl, rfl⟩⟩
    · exact ⟨_, _, ⟨_, rfl, rfl, rfl⟩, ⟨_, _, rfl, rfl, rfl⟩, ⟨rfl, trivial⟩⟩
  obtain ⟨q, hq, hiff⟩ := translate_accepts_iff_holds flatReading _ hm _ _ hwritten
    [("properties.datetime", .str "2024-05-07T00:00:00Z"), ("gsd", .int 10)]
  exact ⟨q, hq, hiff.mpr (by decide)⟩

end Filter

end StacCatalog
