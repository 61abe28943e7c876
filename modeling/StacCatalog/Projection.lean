import StacCatalog.Json.Access
import StacCatalog.Library

/-!
# The fields of an item that a request asks for
-/

namespace StacCatalog

/-- What has been collected of an item. -/
inductive Selection where
  /-- A value of the item itself. -/
  | shared (value : Json)
  /-- An object put together for the answer. -/
  | fresh (entries : List (String × Selection))
  deriving Inhabited

namespace Selection

mutual

def toJson : Selection → Json
  | .shared value => value
  | .fresh entries => .obj (entriesJson entries)

/-- The JSON values of entries. -/
def entriesJson : List (String × Selection) → Fields
  | [] => []
  | (name, s) :: rest => (name, s.toJson) :: entriesJson rest

end

/-! ### Including -/

mutual

/-- Adds a value of the item to what was collected of it. A shared object holds all there is to add.
-/
def addValue (old : Selection) : Json → Selection
  | .obj fields =>
    match old with
    | .fresh entries => .fresh (addFields entries fields)
    | .shared (.obj inner) => .shared (.obj inner)
    | .shared _ => .shared (.obj fields)
  | value => .shared value

/-- Adds the entries of an object of the item, in order. -/
def addFields (entries : List (String × Selection)) :
    List (String × Json) → List (String × Selection)
  | [] => entries
  | (name, value) :: rest =>
    let s := match entries.lookup name with
      | some old => addValue old value
      | none => .shared value
    addFields (Keyed.set entries name s) rest

end

mutual

/-- Adds a collection to another of the same object. -/
def add (old : Selection) : Selection → Selection
  | .shared value => addValue old value
  | .fresh others =>
    match old with
    | .fresh entries => .fresh (addEntries entries others)
    | .shared (.obj inner) => .shared (.obj inner)
    | .shared _ => .fresh others

/-- Adds collected entries to others. -/
def addEntries (entries : List (String × Selection)) :
    List (String × Selection) → List (String × Selection)
  | [] => entries
  | (name, s) :: rest =>
    let value := match entries.lookup name with
      | some old => add old s
      | none => s
    addEntries (Keyed.set entries name value) rest

end

/-- The part of a value that a path names, below its first name. -/
def along (fields : Fields) : List String → List (String × Selection)
  | [] => []
  | name :: rest =>
    match Fields.get? fields name with
    | none => []
    | some (.obj inner) =>
      if rest.isEmpty then [(name, .shared (.obj inner))] else [(name, .fresh (along inner rest))]
    | some value => [(name, .shared value)]

/-- Adds the part that a path names to what has been collected: `include_fields`. A path that names
a whole value puts it in the place of its parts. -/
def includePath (item : Fields) (entries : List (String × Selection)) (path : List String) :
    List (String × Selection) :=
  match along item path with
  | [(name, .fresh part)] => addEntries entries [(name, .fresh part)]
  | [(name, whole)] => Keyed.set entries name whole
  | _ => entries

/-- Collects the included fields; without any, all fields. -/
def gather (item : Fields) (paths : List (List String)) : List (String × Selection) :=
  if paths.isEmpty then item.map fun entry => (entry.1, .shared entry.2)
  else paths.foldl (includePath item) []

/-! ### Excluding -/

/-- Takes a field out of an object; an object that is left empty goes too. -/
def excludeShared (fields : Fields) : List String → Fields
  | [] => fields
  | name :: rest =>
    match Fields.get? fields name with
    | none => fields
    | some (.obj inner) =>
      if rest.isEmpty then Fields.erase fields name
      else
        let left := excludeShared inner rest
        if left.isEmpty then Fields.erase fields name else Fields.insert fields name (.obj left)
    | some _ => Fields.erase fields name

/-- Takes a field out of a collection, and out of the item where the two are one: `exclude_fields`.
-/
def excludePath (entries : List (String × Selection)) (item : Fields) :
    List String → List (String × Selection) × Fields
  | [] => (entries, item)
  | name :: rest =>
    match entries.lookup name with
    | none => (entries, item)
    | some (.shared (.obj inner)) =>
      if rest.isEmpty then (Keyed.erase entries name, item)
      else
        let left := excludeShared inner rest
        let entries := if left.isEmpty then Keyed.erase entries name
            else Keyed.set entries name (.shared (.obj left))
        (entries, Fields.insert item name (.obj left))
    | some (.fresh inner) =>
      if rest.isEmpty then (Keyed.erase entries name, item)
      else
        let below := match Fields.get? item name with
          | some (.obj fields) => fields
          | _ => []
        let (left, below) := excludePath inner below rest
        let entries := if left.isEmpty then Keyed.erase entries name
            else Keyed.set entries name (.fresh left)
        (entries, Fields.insert item name (.obj below))
    | some (.shared _) => (Keyed.erase entries name, item)

/-- Takes fields out, one after the other. -/
def exclude (entries : List (String × Selection)) (item : Fields) (paths : List (List String)) :
    List (String × Selection) × Fields :=
  paths.foldl (fun (entries, item) path => excludePath entries item path) (entries, item)

end Selection

/-- The fields a request asks for, as paths. -/
structure Projection where
  included : List String
  excluded : List String
  deriving DecidableEq, Repr, Inhabited

namespace Projection

def names (path : String) : List String :=
  (path.toList.splitOn '.').map String.ofList

/-- What is collected of an item for some included paths. -/
def collect (included : List String) (item : Fields) : List (String × Selection) :=
  Selection.gather item (included.eraseDups.map names)

/-- The answer where nothing was included: it names the item and its collection only. -/
def bare (item : Fields) : Outcome Fields := do
  let id ← Json.item (.obj item) "id"
  let collection ← Json.item (.obj item) "collection"
  return [("id", id), ("collection", collection)]

/-- The answer after some paths are excluded from what was collected, and the item afterwards. -/
def finish (entries : List (String × Selection)) (item : Fields) (excluded : List String) :
    Fields × Fields :=
  let (entries, item) := Selection.exclude entries item (excluded.eraseDups.map names)
  (Selection.entriesJson entries, item)

/-- The projected item, and the item afterwards. -/
def apply (p : Projection) (item : Fields) : Outcome (Fields × Fields) :=
  if p.included.isEmpty && p.excluded.isEmpty then .ok (item, item)
  else
    let entries := collect p.included item
    if entries.isEmpty then do return (← bare item, item)
    else .ok (finish entries item p.excluded)

/-- The paths of one side of a request, each of which must be a text. -/
def paths (side : Json) : Outcome (List String) := do
  if side.truthy then (← side.elements).mapM fun path => path.text "split" else return []

/-- The item projected as a request asks, and the item afterwards: `filter_fields`. Excluded paths
are looked at only if something was included. -/
def answer (library : Library) (included excluded : Json) (item : Fields) :
    Outcome (Fields × Fields) := do
  if !included.truthy && !excluded.truthy then return (item, item)
  else
    let entries := collect (← paths included) item
    if entries.isEmpty then return (← bare item, item)
    else
      let (projected, item) := finish entries item (← paths excluded)
      return (← library.document projected, item)

/-- Texts are read as paths one by one. -/
theorem mapM_text (texts : List String) :
    (texts.map Json.str).mapM (fun path => path.text "split") = Except.ok (ε := Fault) texts := by
  induction texts with
  | nil => rfl
  | cons text rest ih => simp only [List.map_cons, List.mapM_cons, ih]; rfl

/-- A list of texts is read as the paths it holds. -/
theorem paths_ofStrings (texts : List String) : paths (Json.ofStrings texts) = .ok texts := by
  cases texts with
  | nil => rfl
  | cons text rest => exact mapM_text (text :: rest)

/-- A request that lists texts is answered as the projection of these paths says, unless no document
can be built from what it collects. -/
theorem answer_ofStrings (library : Library) (p : Projection) (item : Fields)
    (h : p.included ≠ [] ∨ p.excluded ≠ []) :
    answer library (Json.ofStrings p.included) (Json.ofStrings p.excluded) item =
      if (collect p.included item).isEmpty then (bare item).map (·, item)
      else
        let (projected, item) := finish (collect p.included item) item p.excluded
        (library.document projected).map (·, item) := by
  have truthy (texts : List String) : (Json.ofStrings texts).truthy = !texts.isEmpty := by
    cases texts <;> rfl
  have given : (p.included.isEmpty && p.excluded.isEmpty) = false := by
    cases hi : p.included <;> cases he : p.excluded <;> simp_all
  simp only [answer, truthy, paths_ofStrings, Bool.not_not, given, Bool.false_eq_true, if_false,
    bind, Except.bind]
  by_cases none : (collect p.included item).isEmpty = true
  · simp only [none, if_true]
    cases bare item <;> rfl
  · simp only [if_neg none]
    cases library.document (finish (collect p.included item) item p.excluded).1 <;> rfl

end Projection

end StacCatalog
