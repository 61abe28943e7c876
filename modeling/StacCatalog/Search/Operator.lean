import StacCatalog.Json.Compare

/-!
# The comparison operators by which a search can ask for the value of a property
-/

namespace StacCatalog

/-- An operator of a query: `Operator`. -/
inductive Operator where
  | eq
  | ne
  | lt
  | lte
  | gt
  | gte
  deriving DecidableEq, Repr

namespace Operator

/-- All operators, in the order they are declared. -/
def all : List Operator :=
  [.eq, .ne, .lt, .lte, .gt, .gte]

def name : Operator → String
  | .eq => "eq"
  | .ne => "ne"
  | .lt => "lt"
  | .lte => "lte"
  | .gt => "gt"
  | .gte => "gte"

def ofName (value : Json) : Outcome Operator :=
  match all.find? fun op => value == .str op.name with
  | some op => .ok op
  | none => .error (.invalid (value.quoted ++ " is not a valid Operator"))

/-- Whether an operator holds of two values: `operator`. -/
def holds (op : Operator) (a b : Json) : Outcome Bool :=
  match op with
  | .eq => .ok (a.same b)
  | .ne => .ok (!a.same b)
  | .lt => a.less b
  | .gt => a.greater b
  | .lte | .gte => .error (.noMember "module" op.name)

end Operator

end StacCatalog
