import StacCatalog.Json.Table

/-!
# Queries that the database answers, and their JSON form
-/

namespace StacCatalog

abbrev Field := Json

/-- The sides on which a range is bounded. -/
inductive Bound where
  | gt
  | gte
  | lt
  | lte
  deriving DecidableEq, Repr

/-- How the shape of a document lies to a given shape. -/
inductive Relation where
  | intersects
  | contains
  | within
  | disjoint
  deriving DecidableEq, Repr

/-- A query. -/
inductive Query where
  | all (parts : List Query)
  | any (parts : List Query)
  | none (parts : List Query)
  | not (part : Query)
  | term (field : Field) (value : Json)
  | terms (field : Field) (values : List Json)
  /-- The field lies within all bounds. -/
  | range (field : Field) (bounds : List (Bound × Json))
  | exists (field : Field)
  /-- The field matches the pattern, letter case aside. -/
  | wildcard (field : Field) (pattern : String)
  /-- The shape in the field lies so to the given shape. -/
  | shape (field : Field) (geometry : Json) (relation : Relation)
  | free
  deriving Repr

def Bound.name : Bound → String
  | .gt => "gt"
  | .gte => "gte"
  | .lt => "lt"
  | .lte => "lte"

def Relation.name : Relation → String
  | .intersects => "intersects"
  | .contains => "contains"
  | .within => "within"
  | .disjoint => "disjoint"

namespace Query

/-- The JSON form of a condition on a field. -/
def onField (kind : String) (field : Field) (condition : Json) : Json :=
  .single kind (.single field.keyName condition)

/-- The JSON form of a Boolean combination. -/
def combination (kind : String) (parts : Json) : Json :=
  .single "bool" (.single kind parts)

mutual

def toJson : Query → Json
  | .all parts => combination "must" (.arr (partsJson parts))
  | .any parts => combination "should" (.arr (partsJson parts))
  | .none parts => combination "must_not" (.arr (partsJson parts))
  | .not part => combination "must_not" part.toJson
  | .term field value => onField "term" field value
  | .terms field values => onField "terms" field (.arr values)
  | .range field bounds => onField "range" field (.obj (bounds.map fun (b, v) => (b.name, v)))
  | .exists field => .single "exists" (.single "field" field)
  | .wildcard field pattern =>
    onField "wildcard" field (.obj [("value", .str pattern), ("case_insensitive", .bool true)])
  | .shape field geometry relation =>
    onField "geo_shape" field (.obj [("shape", geometry), ("relation", .str relation.name)])
  | .free => .obj []

def partsJson : List Query → List Json
  | [] => []
  | q :: rest => q.toJson :: partsJson rest

/-- The fields that stand as keys in the JSON form. -/
def keys : Query → List Field
  | .all parts | .any parts | .none parts => partsKeys parts
  | .not part => part.keys
  | .term field _ | .terms field _ | .range field _ | .wildcard field _ | .shape field _ _ =>
    [field]
  | .exists _ | .free => []

/-- The fields of several queries. -/
def partsKeys : List Query → List Field
  | [] => []
  | q :: rest => q.keys ++ partsKeys rest

end

end Query

end StacCatalog
