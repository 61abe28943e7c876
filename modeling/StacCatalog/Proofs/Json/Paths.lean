import StacCatalog.Json.Basic

/-!
# Values by their paths
-/

namespace StacCatalog

open Option List

variable {here : Json}

/-! ### Paths -/

/-- Of two paths, one goes on where the other ends. -/
def Comparable (p q : List String) : Prop :=
  p <+: q ∨ q <+: p

instance (p q : List String) : Decidable (Comparable p q) :=
  inferInstanceAs (Decidable (p <+: q ∨ q <+: p))

namespace Comparable

variable {p q r : List String}

@[simp] theorem nil_left (q : List String) : Comparable [] q :=
  .inl nil_prefix

@[simp] theorem nil_right (p : List String) : Comparable p [] :=
  .inr nil_prefix

@[simp] theorem cons_cons {a b : String} :
    Comparable (a :: p) (b :: q) ↔ a = b ∧ Comparable p q := by
  simp only [Comparable, cons_prefix_cons]
  constructor
  · rintro (⟨rfl, h⟩ | ⟨rfl, h⟩)
    · exact ⟨rfl, .inl h⟩
    · exact ⟨rfl, .inr h⟩
  · rintro ⟨rfl, h | h⟩
    · exact .inl ⟨rfl, h⟩
    · exact .inr ⟨rfl, h⟩

theorem of_prefix (h : Comparable p r) (hq : q <+: r) : Comparable p q := by
  rcases h with h | h
  · exact prefix_or_prefix_of_prefix h hq
  · exact .inr (hq.trans h)

end Comparable

namespace Json

/-! ### What stands at a path -/

/-- The value at a path of keys. -/
def at? : Json → List String → Option Json
  | value, [] => some value
  | .obj fields, key :: rest => (Fields.get? fields key).bind (·.at? rest)
  | _, _ :: _ => none

/-- A value without the members of an object. -/
def outline : Json → Json
  | .obj _ => .obj []
  | value => value

/-- What stands at a path, apart from what is below it. -/
def spot? (value : Json) (path : List String) : Option Json :=
  (value.at? path).map outline

def Holds (value : Json) (path : List String) : Prop :=
  (value.spot? path).isSome = true

variable {value inner : Json} {fields : Fields} {name : String} {path rest : List String}

@[simp] theorem spot?_nil (value : Json) : value.spot? [] = some value.outline := by
  cases value <;> rfl

@[simp] theorem spot?_cons (fields : Fields) (name : String) (rest : List String) :
    (Json.obj fields).spot? (name :: rest) = (Fields.get? fields name).bind (·.spot? rest) := by
  simp only [spot?, at?, map_bind]
  rfl

theorem spot?_cons_of_not_obj (h : value.isObj = false) (name : String) (rest : List String) :
    value.spot? (name :: rest) = none := by
  cases value with
  | obj fields => cases h
  | _ => rfl

theorem outline_eq_iff (h : value.isObj = false) : inner.outline = value ↔ inner = value := by
  cases inner with
  | obj fields =>
    constructor <;> rintro rfl <;> cases h
  | _ => exact Iff.rfl

theorem spot?_eq_some_iff (h : inner.isObj = false) :
    value.spot? path = some inner ↔ value.at? path = some inner := by
  simp only [spot?, map_eq_some_iff, outline_eq_iff h, exists_eq_right]

/-! ### Where something stands -/

@[simp] theorem holds_nil (value : Json) : value.Holds [] := by
  rw [Holds, spot?_nil, isSome_some]

theorem holds_of_spot? (h : value.spot? path = some here) : value.Holds path := by
  rw [Holds, h, isSome_some]

theorem Holds.exists_spot (h : value.Holds path) : ∃ here, value.spot? path = some here :=
  isSome_iff_exists.mp h

theorem holds_cons :
    (Json.obj fields).Holds (name :: rest) ↔
      ∃ inner, fields.get? name = some inner ∧ inner.Holds rest := by
  rw [Holds, spot?_cons]
  cases Fields.get? fields name <;> simp [Holds]

theorem holds_singleton : (Json.obj fields).Holds [name] ↔ fields.has name = true := by
  simp [holds_cons, Fields.has, isSome_iff_exists]

theorem Holds.eq_nil (h : value.Holds path) (hvalue : value.isObj = false) : path = [] := by
  cases path with
  | nil => rfl
  | cons name rest =>
    rw [Holds, spot?_cons_of_not_obj hvalue] at h
    cases h

theorem holds_of_prefix {shorter : List String} (h : value.Holds path)
    (hshorter : shorter <+: path) : value.Holds shorter := by
  induction shorter generalizing value path with
  | nil => exact holds_nil value
  | cons name shorter ih =>
    obtain ⟨rest, rfl⟩ := hshorter
    cases value with
    | obj fields =>
      obtain ⟨inner, hget, hinner⟩ := holds_cons.mp h
      exact holds_cons.mpr ⟨inner, hget, ih hinner (prefix_append ..)⟩
    | _ => cases h.eq_nil rfl

theorem eq_of_prefix_of_not_obj {longer : List String} (hhere : value.at? path = some here)
    (hobj : here.isObj = false) (hlonger : path <+: longer) (h : value.Holds longer) :
    longer = path := by
  induction path generalizing value longer with
  | nil =>
    cases Option.some.inj ((at?.eq_1 value).symm.trans hhere)
    exact h.eq_nil hobj
  | cons name rest ih =>
    obtain ⟨more, rfl⟩ := hlonger
    cases value with
    | obj fields =>
      obtain ⟨inner, hget, hinner⟩ := holds_cons.mp h
      rw [at?, hget] at hhere
      exact congrArg (name :: ·) (ih hhere (prefix_append ..) hinner)
    | _ => cases hhere

theorem wellFormed_of_get? (h : (Json.obj fields).WellFormed)
    (hget : fields.get? name = some inner) : inner.WellFormed := by
  have hmem : (name, inner) ∈ fields := Keyed.mem_of_lookup hget
  rw [WellFormed] at h
  have hall := h.2
  clear h hget
  induction fields with
  | nil => cases hmem
  | cons entry rest ih =>
    obtain ⟨key, value⟩ := entry
    rw [WellFormedFields] at hall
    rcases mem_cons.mp hmem with heq | hmem
    · cases heq
      exact hall.1
    · exact ih hmem hall.2

end Json

/-- Two objects as nested maps: at every path both have nothing, both have an object, or both have
the same other value. -/
def Fields.SameMap (a b : Fields) : Prop :=
  ∀ path, (Json.obj a).spot? path = (Json.obj b).spot? path

end StacCatalog
