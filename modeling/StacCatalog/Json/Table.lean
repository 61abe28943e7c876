import StacCatalog.Json.Access
import StacCatalog.Json.Writer

/-!
# Tables: values by a key that may be a text, a number, a truth value or `null`
-/

namespace StacCatalog

namespace Json

/-- The value that stands for all keys equal to this one; `none` for the number that is no number.
-/
def asKey? : Json → Option Json
  | .bool b => some (.int (if b then 1 else 0))
  | .float x =>
    match x.toRatio? with
    | some (num, den) => some (if num % den = 0 then .int (num / den) else .float x)
    | none => if x.isNaN then none else some (.float x)
  | v => some v

/-- Whether two keys are one. -/
def sameKey (a b : Json) : Bool :=
  a.asKey?.isSome && a.asKey? == b.asKey?

/-- The name under which a key stands in an object. -/
def keyName : Json → String
  | .str s => s
  | v => v.write .spaced

/-- Values by key, in the order in which the keys were first set. -/
abbrev Table := List (Json × Json)

namespace Table

def get? (table : Table) (key : Json) : Option Json :=
  (table.find? fun entry => entry.1.sameKey key).map Prod.snd

/-- Sets a key: in place if it is present, else at the end. -/
def set (table : Table) (key value : Json) : Table :=
  match table with
  | [] => [(key, value)]
  | (k, v) :: rest => if k.sameKey key then (k, value) :: rest else (k, v) :: set rest key value

def erase (table : Table) (key : Json) : Table :=
  table.filter fun entry => !entry.1.sameKey key

def ofEntries (entries : Table) : Table :=
  entries.foldl (fun table entry => table.set entry.1 entry.2) []

/-- The object of a table. Of two keys with one name the later counts. -/
def toFields (table : Table) : Fields :=
  Fields.ofEntries (table.map fun (key, value) => (key.keyName, value))

/-- Setting a key is seen at that key and nowhere else. -/
theorem get?_set (table : Table) (key other value : Json) :
    (table.set key value).get? other =
      if key.sameKey other then some value else table.get? other := by
  induction table with
  | nil => simp only [set, get?, List.find?]; grind
  | cons entry rest ih =>
    obtain ⟨k, v⟩ := entry
    simp only [get?] at ih ⊢
    simp only [set]
    split <;> simp only [List.find?_cons] <;> grind [sameKey]

theorem get?_erase (table : Table) (key other : Json) :
    (table.erase key).get? other = if key.sameKey other then none else table.get? other := by
  induction table with
  | nil => simp [erase, get?]
  | cons entry rest ih =>
    obtain ⟨k, v⟩ := entry
    simp only [get?, erase] at ih ⊢
    simp only [List.filter_cons]
    split <;> simp only [List.find?_cons] <;> grind [sameKey]

end Table

end Json

end StacCatalog
