import StacCatalog.Query

/-!
# What a query means: which documents the database accepts
-/

namespace StacCatalog

/-- What the database knows about documents of type `δ`. -/
structure Reading (δ : Type) where
  /-- The value of a field, if the document has the field. -/
  value? : δ → String → Option Json
  /-- How a value compares with another, if the two can be compared. -/
  compare? : Json → Json → Option Ordering
  /-- Whether a shape lies so to another. -/
  relates : Relation → Json → Json → Bool

def Relation.ofName? : String → Option Relation
  | "intersects" => some .intersects
  | "contains" => some .contains
  | "within" => some .within
  | "disjoint" => some .disjoint
  | _ => none

theorem Relation.ofName?_name (relation : Relation) :
    Relation.ofName? relation.name = some relation := by
  cases relation <;> rfl

namespace Query

variable {δ : Type} (db : Reading δ) (doc : δ)

/-- Whether a value lies on the side of a bound that its name says. -/
def meetsBound (value : Json) : String × Json → Bool
  | ("gt", bound) => db.compare? value bound == some .gt
  | ("gte", bound) => db.compare? value bound == some .gt || db.compare? value bound == some .eq
  | ("lt", bound) => db.compare? value bound == some .lt
  | ("lte", bound) => db.compare? value bound == some .lt || db.compare? value bound == some .eq
  | _ => false

/-- Whether a value is a shape that lies to another as the parameters say. -/
def meetsShape (value : Json) (params : Fields) : Bool :=
  match params.get? "shape", params.get? "relation" with
  | some geometry, some (.str name) =>
    (Relation.ofName? name).any fun relation => db.relates relation value geometry
  | _, _ => false

/-- Whether a document meets the condition of a kind. A document without the field meets none. -/
def meets (kind : String) (condition : Json) : Bool :=
  match kind, condition with
  | "term", .obj [(field, value)] =>
    (db.value? doc field).any fun v => db.compare? v value == some .eq
  | "terms", .obj [(field, .arr values)] =>
    (db.value? doc field).any fun v => values.any fun value => db.compare? v value == some .eq
  | "range", .obj [(field, .obj bounds)] =>
    (db.value? doc field).any fun v => bounds.all (meetsBound db v)
  | "exists", .obj [("field", .str field)] => (db.value? doc field).any fun v => !v.isNull
  | "geo_shape", .obj [(field, .obj params)] =>
    (db.value? doc field).any fun v => meetsShape db v params
  | _, _ => false

mutual

/-- Whether the database accepts a document. -/
def accepts : Json → Bool
  | .obj [(kind, body)] => if kind = "bool" then acceptsBool body else meets db doc kind body
  | _ => false

/-- Whether the database accepts a document by a Boolean combination of one kind. Its parts are a
list of queries or a single one. -/
def acceptsBool : Json → Bool
  | .obj [("must", .arr parts)] => acceptsAll parts
  | .obj [("must", part)] => accepts part
  | .obj [("should", .arr parts)] => acceptsAny parts
  | .obj [("should", part)] => accepts part
  | .obj [("must_not", .arr parts)] => !acceptsAny parts
  | .obj [("must_not", part)] => !accepts part
  | _ => false

def acceptsAll : List Json → Bool
  | [] => true
  | q :: rest => accepts q && acceptsAll rest

def acceptsAny : List Json → Bool
  | [] => false
  | q :: rest => accepts q || acceptsAny rest

end

/-! ### The forms of a query -/

@[simp] theorem accepts_all (parts : List Query) :
    accepts db doc (Query.all parts).toJson = acceptsAll db doc (partsJson parts) := rfl

@[simp] theorem accepts_any (parts : List Query) :
    accepts db doc (Query.any parts).toJson = acceptsAny db doc (partsJson parts) := rfl

@[simp] theorem accepts_none (parts : List Query) :
    accepts db doc (Query.none parts).toJson = !acceptsAny db doc (partsJson parts) := rfl

@[simp] theorem accepts_term (field : String) (value : Json) :
    accepts db doc (Query.term (.str field) value).toJson =
      (db.value? doc field).any fun v => db.compare? v value == some .eq := rfl

@[simp] theorem accepts_terms (field : String) (values : List Json) :
    accepts db doc (Query.terms (.str field) values).toJson =
      (db.value? doc field).any fun v => values.any fun value => db.compare? v value == some .eq :=
      rfl

@[simp] theorem accepts_range (field : String) (bounds : List (Bound × Json)) :
    accepts db doc (Query.range (.str field) bounds).toJson =
      (db.value? doc field).any fun v => bounds.all fun b => meetsBound db v (b.1.name, b.2) := by
  show ((db.value? doc field).any fun v =>
    (bounds.map fun b => (b.1.name, b.2)).all (meetsBound db v)) = _
  simp only [List.all_map, Function.comp_def]

/-- A field that is not there and a field that is `null` are told apart from all others by one
query. -/
@[simp] theorem accepts_not_exists (field : String) :
    accepts db doc (Query.not (.exists (.str field))).toJson = !(db.value? doc field).any fun v =>
      !v.isNull := rfl

@[simp] theorem accepts_shape (field : String) (geometry : Json) (relation : Relation) :
    accepts db doc (Query.shape (.str field) geometry relation).toJson =
      (db.value? doc field).any fun v => db.relates relation v geometry := by
  show ((db.value? doc field).any fun v =>
    (Relation.ofName? relation.name).any fun relation => db.relates relation v geometry) = _
  rw [Relation.ofName?_name]
  rfl

end Query

end StacCatalog
