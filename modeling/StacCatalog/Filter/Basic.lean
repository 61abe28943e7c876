import StacCatalog.Filter.Like
import StacCatalog.Query

/-!
# Filters of the CQL2 language in their JSON form, and the queries they stand for
-/

namespace StacCatalog

/-- How a filter combines its parts: `LogicalOp`. -/
inductive Junction where
  | and
  | or
  | not
  deriving DecidableEq, Repr

/-- How a property is compared: `ComparisonOp`. -/
inductive Comparison where
  | eq
  | neq
  | lt
  | lte
  | gt
  | gte
  deriving DecidableEq, Repr

/-- What a property is compared with. -/
inductive Operand where
  | value (v : Json)
  | timestamp (v : Json)
  deriving DecidableEq, Repr

def Operand.json : Operand → Json
  | .value v | .timestamp v => v

/-- A filter. -/
inductive Filter where
  | junction (how : Junction) (parts : List Filter)
  | compare (op : Comparison) (property : Json) (operand : Operand)
  | isNull (property : Json)
  | between (property : Json) (low high : Operand)
  | oneOf (property : Json) (values : List Json)
  | like (property : Json) (pattern : String)
  | spatial (relation : Relation) (property : Json) (geometry : Json)
  /-- A filter of an operator that is not known: it asks for nothing. -/
  | unknown
  deriving Repr

inductive FilterOp where
  | junction (how : Junction)
  | compare (op : Comparison)
  | isNull
  | between
  | oneOf
  | like
  | spatial (relation : Relation)
  deriving DecidableEq, Repr

def FilterOp.ofName? : String → Option FilterOp
  | "and" => some (.junction .and)
  | "or" => some (.junction .or)
  | "not" => some (.junction .not)
  | "=" => some (.compare .eq)
  | "<>" => some (.compare .neq)
  | "<" => some (.compare .lt)
  | "<=" => some (.compare .lte)
  | ">" => some (.compare .gt)
  | ">=" => some (.compare .gte)
  | "isNull" => some .isNull
  | "between" => some .between
  | "in" => some .oneOf
  | "like" => some .like
  | "s_intersects" => some (.spatial .intersects)
  | "s_contains" => some (.spatial .contains)
  | "s_within" => some (.spatial .within)
  | "s_disjoint" => some (.spatial .disjoint)
  | _ => none

namespace Filter

/-! ### Single filters -/

/-- The operand a value stands for: an object with a time stamp is that time stamp. -/
def operand (value : Json) : Operand :=
  match value with
  | .obj fields =>
    match Fields.get? fields "timestamp" with
    | some t => .timestamp t
    | none => .value value
  | v => .value v

def argument (filter : Json) (i : Nat) : Outcome Json := do
  (← filter.item "args").nth i

/-- The property a filter is about: its first argument names it. -/
def property (filter : Json) : Outcome Json := do
  let name ← (← argument filter 0).item "property"
  name.hashable
  return name

/-- A filter of any operator but a logical one. -/
def readLeaf (op : FilterOp) (filter : Json) : Outcome Filter := do
  let name ← property filter
  match op with
  | .compare comparison => return .compare comparison name (operand (← argument filter 1))
  | .isNull => return .isNull name
  | .between =>
    let low ← argument filter 1
    let high ← argument filter 2
    return .between name (operand low) (operand high)
  | .oneOf =>
    match ← argument filter 1 with
    | .arr values => return .oneOf name values
    | other => .error (.notList other)
  | .like =>
    let pattern ← (← argument filter 1).searched
    let _ ← wildcard pattern
    return .like name pattern
  | .spatial relation => return .spatial relation name (← argument filter 1)
  | .junction _ => return .unknown

/-- The fault of asking a value that is no object for its operator. -/
def noOperator (value : Json) : Outcome Filter := do
  let _ ← value.item "op"
  return .unknown

/-- The operator of a filter, if it is known. -/
def operatorOf (fields : Fields) : Outcome (Option FilterOp) := do
  match ← Json.item (.obj fields) "op" with
  | .str name => return FilterOp.ofName? name
  | _ => return none

/-! ### Queries -/

/-- The names under which the database knows the queryables. -/
abbrev Mapping := Fields

/-- The field that a property stands for: `to_es_field`. -/
def field (mapping : Mapping) (property : Json) : Field :=
  match property with
  | .str name => (Fields.get? mapping name).getD property
  | other => other

/-- Equality with an operand. A time stamp is an interval of one instant. -/
def equals (f : Field) : Operand → Query
  | .value v => .term f v
  | .timestamp t => .range f [(.gte, t), (.lte, t)]

/-- The query of a comparison. -/
def comparison (op : Comparison) (f : Field) (operand : Operand) : Query :=
  match op with
  | .eq => equals f operand
  | .neq => .none [equals f operand]
  | .lt => .range f [(.lt, operand.json)]
  | .lte => .range f [(.lte, operand.json)]
  | .gt => .range f [(.gt, operand.json)]
  | .gte => .range f [(.gte, operand.json)]

/-- The wildcard pattern of a LIKE pattern that was read, and the pattern itself otherwise. -/
def wildcardOf (pattern : String) : String :=
  match wildcard pattern with
  | .ok w => w
  | .error _ => pattern

mutual

/-- The query of a filter: `to_es`. -/
def query (mapping : Mapping) : Filter → Query
  | .junction .and parts => .all (queries mapping parts)
  | .junction .or parts => .any (queries mapping parts)
  | .junction .not parts => .none (queries mapping parts)
  | .compare op p operand => comparison op (field mapping p) operand
  | .isNull p => .not (.exists (field mapping p))
  | .between p low high =>
    .range (field mapping p) [(.gte, low.json), (.lte, high.json)]
  | .oneOf p values => .terms (field mapping p) values
  | .like p pattern => .wildcard (field mapping p) (wildcardOf pattern)
  | .spatial relation p geometry => .shape (field mapping p) geometry relation
  | .unknown => .free

def queries (mapping : Mapping) : List Filter → List Query
  | [] => []
  | f :: rest => query mapping f :: queries mapping rest

end

/-- The fault of a filter on a property that is mapped to something that cannot be a key. -/
def usable (mapping : Mapping) (f : Filter) : Outcome Unit :=
  (f.query mapping).keys.forM Json.hashable

mutual

/-- Reads a filter. The parts of a logical filter are the elements of its argument list; an argument
list given as an object or a text has parts that are no filters. Every part that is no logical
filter is put to `check` before the next one is read. -/
def read (check : Filter → Outcome Unit) : Json → Outcome Filter
  | .obj fields =>
    match operatorOf fields with
    | .error fault => .error fault
    | .ok none => .ok .unknown
    | .ok (some (.junction how)) =>
      match readArguments check fields with
      | .ok parts => .ok (.junction how parts)
      | .error fault => .error fault
    | .ok (some op) => do
      let part ← readLeaf op (.obj fields)
      check part
      return part
  | value => noOperator value

/-- Reads the parts of a logical filter: the value of the entry `args`. -/
def readArguments (check : Filter → Outcome Unit) : List (String × Json) → Outcome (List Filter)
  | [] => .error (.missingKey (.str "args"))
  | (name, value) :: rest =>
    if name = "args" then readParts check value else readArguments check rest

/-- Reads the parts of a logical filter from its argument list. -/
def readParts (check : Filter → Outcome Unit) : Json → Outcome (List Filter)
  | .arr items => readItems check items
  | value => do
    (← value.elements).mapM noOperator

/-- Reads the parts of a logical filter one by one. -/
def readItems (check : Filter → Outcome Unit) : List Json → Outcome (List Filter)
  | [] => .ok []
  | v :: rest => do
    let part ← read check v
    let others ← readItems check rest
    return part :: others

end

/-- Translates a filter into a query. -/
def translate (mapping : Mapping) (filter : Json) : Outcome Query := do
  return (← read (usable mapping) filter).query mapping

end Filter

end StacCatalog
