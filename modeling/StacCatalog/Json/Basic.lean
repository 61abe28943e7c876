import StacCatalog.Keyed
import StacCatalog.Number.Binary64

/-!
# JSON values, the documents of the catalogue
-/

namespace StacCatalog

/-- A JSON value. -/
inductive Json where
  | null
  | bool (b : Bool)
  | int (n : Int)
  | float (x : Binary64)
  | str (s : String)
  | arr (items : List Json)
  | obj (fields : List (String × Json))
  deriving Repr, Inhabited

/-- The entries of an object, in order. -/
abbrev Fields := List (String × Json)

namespace Fields

def get? (fields : Fields) (name : String) : Option Json :=
  fields.lookup name

/-- The value of a name, or `null`. -/
def getD (fields : Fields) (name : String) : Json :=
  (fields.get? name).getD .null

def has (fields : Fields) (name : String) : Bool :=
  (fields.get? name).isSome

def names (fields : Fields) : List String :=
  fields.map Prod.fst

/-- Sets a name: in place if it is present, else at the end. -/
def insert (fields : Fields) (name : String) (value : Json) : Fields :=
  Keyed.set fields name value

def erase (fields : Fields) (name : String) : Fields :=
  Keyed.erase fields name

/-- Sets every entry of `more`, in order. -/
def insertAll (fields more : Fields) : Fields :=
  more.foldl (fun acc entry => acc.insert entry.1 entry.2) fields

/-- An object from entries in which a name may come twice: the last value wins, at the first place.
-/
def ofEntries (entries : Fields) : Fields :=
  insertAll [] entries

theorem get?_insert (fields : Fields) (name other : String) (value : Json) :
    (fields.insert name value).get? other =
      if other = name then some value else fields.get? other :=
  Keyed.lookup_set fields name other value

theorem get?_erase (fields : Fields) (name other : String) :
    (fields.erase name).get? other = if other = name then none else fields.get? other :=
  Keyed.lookup_erase fields name other

end Fields

namespace Json

/-! ### Equality -/

mutual

def decEq : (a b : Json) → Decidable (a = b)
  | .null, .null => isTrue rfl
  | .bool a, .bool b => if h : a = b then isTrue (by rw [h]) else isFalse (by simp [h])
  | .int a, .int b => if h : a = b then isTrue (by rw [h]) else isFalse (by simp [h])
  | .float a, .float b => if h : a = b then isTrue (by rw [h]) else isFalse (by simp [h])
  | .str a, .str b => if h : a = b then isTrue (by rw [h]) else isFalse (by simp [h])
  | .arr a, .arr b =>
    match decEqItems a b with
    | isTrue h => isTrue (by rw [h])
    | isFalse h => isFalse (by simp [h])
  | .obj a, .obj b =>
    match decEqFields a b with
    | isTrue h => isTrue (by rw [h])
    | isFalse h => isFalse (by simp [h])
  | .null, .bool _ | .null, .int _ | .null, .float _ | .null, .str _ | .null, .arr _ | .null, .obj _
  | .bool _, .null | .bool _, .int _ | .bool _, .float _ | .bool _, .str _ | .bool _, .arr _
  | .bool _, .obj _ | .int _, .null | .int _, .bool _ | .int _, .float _ | .int _, .str _
  | .int _, .arr _ | .int _, .obj _ | .float _, .null | .float _, .bool _ | .float _, .int _
  | .float _, .str _ | .float _, .arr _ | .float _, .obj _ | .str _, .null | .str _, .bool _
  | .str _, .int _ | .str _, .float _ | .str _, .arr _ | .str _, .obj _ | .arr _, .null
  | .arr _, .bool _ | .arr _, .int _ | .arr _, .float _ | .arr _, .str _ | .arr _, .obj _
  | .obj _, .null | .obj _, .bool _ | .obj _, .int _ | .obj _, .float _ | .obj _, .str _
  | .obj _, .arr _ => isFalse (by simp)

def decEqItems : (a b : List Json) → Decidable (a = b)
  | [], [] => isTrue rfl
  | [], _ :: _ => isFalse (by simp)
  | _ :: _, [] => isFalse (by simp)
  | x :: xs, y :: ys =>
    match decEq x y, decEqItems xs ys with
    | isTrue h, isTrue h' => isTrue (by rw [h, h'])
    | isFalse h, _ => isFalse (by simp [h])
    | _, isFalse h' => isFalse (by simp [h'])

def decEqFields : (a b : List (String × Json)) → Decidable (a = b)
  | [], [] => isTrue rfl
  | [], _ :: _ => isFalse (by simp)
  | _ :: _, [] => isFalse (by simp)
  | (k, x) :: xs, (l, y) :: ys =>
    if hk : k = l then
      match decEq x y, decEqFields xs ys with
      | isTrue h, isTrue h' => isTrue (by rw [hk, h, h'])
      | isFalse h, _ => isFalse (by simp [h])
      | _, isFalse h' => isFalse (by simp [h'])
    else isFalse (by simp [hk])

end

instance : DecidableEq Json := decEq

mutual

/-- Every object inside has each name at most once. -/
def WellFormed : Json → Prop
  | .arr items => WellFormedItems items
  | .obj fields => (fields.map Prod.fst).Nodup ∧ WellFormedFields fields
  | _ => True

/-- The elements of an array are well formed. -/
def WellFormedItems : List Json → Prop
  | [] => True
  | v :: rest => WellFormed v ∧ WellFormedItems rest

/-- The values of an object are well formed. -/
def WellFormedFields : List (String × Json) → Prop
  | [] => True
  | (_, v) :: rest => WellFormed v ∧ WellFormedFields rest

end

/-! ### Views -/

def fields? : Json → Option Fields
  | .obj fields => some fields
  | _ => none

def str? : Json → Option String
  | .str s => some s
  | _ => none

def isObj : Json → Bool
  | .obj _ => true
  | _ => false

def isNull : Json → Bool
  | .null => true
  | _ => false

/-- The value of a name; `null` if the value is no object or lacks the name. -/
def field (value : Json) (name : String) : Json :=
  match value with
  | .obj fields => Fields.getD fields name
  | _ => .null

/-- Whether a value **counts as given**: `null`, `false`, zero, and empty texts, arrays and objects
do not. -/
def truthy : Json → Bool
  | .null => false
  | .bool b => b
  | .int n => n != 0
  | .float x => !x.isZero
  | .str s => s != ""
  | .arr items => !items.isEmpty
  | .obj fields => !fields.isEmpty

def ofStrings (texts : List String) : Json :=
  .arr (texts.map .str)

def single (name : String) (value : Json) : Json :=
  .obj [(name, value)]

end Json

end StacCatalog
