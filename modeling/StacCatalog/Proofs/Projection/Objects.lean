import Mathlib.Order.Nat
import StacCatalog.Projection

/-!
# Projection in place
-/

namespace StacCatalog

open Function

/-- The place of an object in memory. -/
abbrev Ref := Nat

/-- What stands in a member of an object: a reference to another object, or a value that is no
object. -/
inductive Slot where
  | value (v : Json)
  | object (r : Ref)

/-- Objects in memory, by their places. The places from `size` on are free. -/
structure Heap where
  size : Nat
  members : Ref → List (String × Slot)

namespace Heap

/-! ### Reading and writing -/

def member (m : Heap) (r : Ref) (name : String) : Option Slot :=
  (m.members r).lookup name

/-- Puts other members in the place of all members of an object. -/
def write (m : Heap) (r : Ref) (members : List (String × Slot)) : Heap :=
  { m with members := Function.update m.members r members }

def set (m : Heap) (r : Ref) (name : String) (slot : Slot) : Heap :=
  m.write r (Keyed.set (m.members r) name slot)

def erase (m : Heap) (r : Ref) (name : String) : Heap :=
  m.write r (Keyed.erase (m.members r) name)

def alloc (m : Heap) (members : List (String × Slot)) : Heap × Ref :=
  (⟨m.size + 1, Function.update m.members m.size members⟩, m.size)

section Laws

variable (m : Heap) (r : Ref) (name : String) (slot : Slot) (members : List (String × Slot))

@[simp] theorem members_set_self :
    (m.set r name slot).members r = Keyed.set (m.members r) name slot :=
  update_self ..

theorem members_set_of_ne {other r : Ref} (h : other ≠ r) :
    (m.set r name slot).members other = m.members other :=
  update_of_ne h ..

@[simp] theorem members_erase_self : (m.erase r name).members r = Keyed.erase (m.members r) name :=
  update_self ..

theorem members_erase_of_ne {other r : Ref} (h : other ≠ r) :
    (m.erase r name).members other = m.members other :=
  update_of_ne h ..

@[simp] theorem members_alloc_self : (m.alloc members).1.members m.size = members :=
  update_self ..

theorem members_alloc_of_lt {r : Ref} (h : r < m.size) :
    (m.alloc members).1.members r = m.members r :=
  update_of_ne (Nat.ne_of_lt h) ..

theorem set_of_member {m : Heap} {r : Ref} {name : String} {slot : Slot}
    (h : m.member r name = some slot) : m.set r name slot = m := by
  rw [set, Keyed.set_of_lookup h, write, update_eq_self]

end Laws

/-! ### Including -/

/-- Puts something into a member of an object. Where both are objects, the one that is there is
updated by the other. -/
def put (update : Heap → Ref → Ref → Option Heap) (m : Heap) (into : Ref) (name : String)
    (slot : Slot) : Option Heap :=
  match m.member into name, slot with
  | some (.object a), .object b => update m a b
  | _, _ => some (m.set into name slot)

/-- Puts a member of an object into another one. -/
def putMember (update : Heap → Ref → Ref → Option Heap) (into source : Ref) (m : Heap)
    (name : String) : Option Heap :=
  match m.member source name with
  | some slot => m.put update into name slot
  | none => some m

/-- **Deep update in place**: puts the members of an object into another one, one after the other.
-/
def merge : (depth : Nat) → Heap → (into source : Ref) → Option Heap
  | 0, _, _, _ => none
  | depth + 1, m, into, source =>
    ((m.members source).map Prod.fst).foldlM (putMember (merge depth) into source) m

/-- Adds the part of an object that a path names to what has been collected. What the path leads to
is taken over as it is; for the way to it a new object is built. -/
def includePath (depth : Nat) (m : Heap) (source clean : Ref) : List String → Option Heap
  | [] => some m
  | name :: rest =>
    match m.member source name with
    | none => some m
    | some (.object inner) =>
      if rest.isEmpty then some (m.set clean name (.object inner))
      else do
        let (m, part) := m.alloc []
        let m ← includePath depth m inner part rest
        m.put (merge depth) clean name (.object part)
    | some slot => some (m.set clean name slot)

/-- Collects the included parts of an object in a new one; without any, the object itself is what is
collected. -/
def gather (depth : Nat) (m : Heap) (source : Ref) (paths : List (List String)) :
    Option (Heap × Ref) :=
  if paths.isEmpty then some (m, source)
  else do
    let (m, clean) := m.alloc []
    let m ← paths.foldlM (fun m path => m.includePath depth source clean path) m
    return (m, clean)

/-- Takes a path out of an object; an object that is left empty goes too. -/
def excludePath (m : Heap) (source : Ref) : List String → Heap
  | [] => m
  | name :: rest =>
    match m.member source name with
    | none => m
    | some (.object inner) =>
      if rest.isEmpty then m.erase source name
      else
        let m := excludePath m inner rest
        if (m.members inner).isEmpty then m.erase source name else m
    | some _ => m.erase source name

def bare (m : Heap) (item : Ref) : Heap × Outcome Ref :=
  match m.member item "id", m.member item "collection" with
  | none, _ => (m, .error (.missingKey (.str "id")))
  | some _, none => (m, .error (.missingKey (.str "collection")))
  | some id, some collection =>
    let (m, answer) := m.alloc [("id", id), ("collection", collection)]
    (m, .ok answer)

/-- The document that is built from the members of an object. -/
def document (library : Library) (m : Heap) (r : Ref) : Heap × Outcome Ref :=
  if library.reserved.any fun name => (m.member r name).isSome then
    (m, .error (.wrongType ("got multiple values for argument '" ++
      library.reserved.getD "" ++ "'")))
  else
    let (m, answer) := m.alloc (m.members r)
    (m, .ok answer)

/-- **Projects an object in memory.** The answer is an object too, or a fault; either way some
objects may have changed. -/
def project (library : Library) (depth : Nat) (m : Heap) (p : Projection) (item : Ref) :
    Option (Heap × Outcome Ref) :=
  if p.included.isEmpty && p.excluded.isEmpty then some (m, .ok item)
  else do
    let (m, copy) := m.alloc (m.members item)
    let (m, clean) ← m.gather depth copy (p.included.eraseDups.map Projection.names)
    if (m.members clean).isEmpty then return m.bare copy
    else
      let m := (p.excluded.eraseDups.map Projection.names).foldl
          (fun m path => m.excludePath clean path) m
      return m.document library clean

/-! ### Values in memory -/

section Values

variable {m m' : Heap} {r : Ref} {slot : Slot} {fields : Fields}

/-- **A value in memory.** Two of its members may be one object. -/
inductive Holds (m : Heap) : Slot → Json → Prop
  | value {v : Json} (plain : v.isObj = false) : Holds m (.value v) v
  | object {r : Ref} {fields : Fields} (there : r < m.size)
      (names : (m.members r).map Prod.fst = fields.map Prod.fst)
      (inside : ∀ name slot value, m.member r name = some slot → fields.get? name =
        some value → Holds m slot value) :
      Holds m (.object r) (.obj fields)

/-- Only free places have been written to: all objects are there as they were. -/
structure Extends (m m' : Heap) : Prop where
  size : m.size ≤ m'.size
  kept : ∀ x < m.size, m'.members x = m.members x

theorem Extends.refl (m : Heap) : m.Extends m :=
  ⟨le_rfl, fun _ _ => rfl⟩

theorem Extends.trans {m₁ m₂ m₃ : Heap} (h : m₁.Extends m₂) (h' : m₂.Extends m₃) : m₁.Extends m₃ :=
  ⟨h.size.trans h'.size, fun x hx => (h'.kept x (hx.trans_le h.size)).trans (h.kept x hx)⟩

theorem extends_alloc (m : Heap) (members : List (String × Slot)) : m.Extends (m.alloc members).1 :=
  ⟨Nat.le_succ _, fun _ hx => members_alloc_of_lt _ _ hx⟩

theorem Holds.object_inv (h : Holds m (.object r) (.obj fields)) :
    r < m.size ∧ (m.members r).map Prod.fst = fields.map Prod.fst ∧
    ∀ name slot value,
      m.member r name = some slot → fields.get? name = some value → Holds m slot value := by
  cases h with
  | object there names inside => exact ⟨there, names, inside⟩

theorem Holds.of_extends {v : Json} (h : Holds m slot v) (hm : m.Extends m') : Holds m' slot v := by
  induction h with
  | value plain => exact .value plain
  | @object r fields there names inside ih =>
    have hr := hm.kept r there
    refine .object (there.trans_le hm.size) (by rw [hr, names]) fun name slot value hslot hvalue =>
      ?_
    rw [member, hr] at hslot
    exact ih name slot value hslot hvalue

theorem holds_alloc {members : List (String × Slot)}
    (hnames : members.map Prod.fst = fields.map Prod.fst)
    (hinside : ∀ name slot value,
      members.lookup name = some slot → fields.get? name = some value → m.Holds slot value) :
    (m.alloc members).1.Holds (.object m.size) (.obj fields) := by
  refine .object (Nat.lt_succ_self _) (by rw [members_alloc_self, hnames])
    fun name slot value hslot hvalue => ?_
  rw [member, members_alloc_self] at hslot
  exact (hinside name slot value hslot hvalue).of_extends (extends_alloc ..)

mutual

theorem exists_holds (m : Heap) : (v : Json) → ∃ (m₂ : Heap) (slot : Slot), m.Extends m₂ ∧
    m₂.Holds slot v
  | .obj fields => by
    obtain ⟨m₁, members, hm₁, hnames, hinside⟩ := exists_members m fields
    exact ⟨_, .object m₁.size, hm₁.trans (extends_alloc ..), holds_alloc hnames hinside⟩
  | .null | .bool _ | .int _ | .float _ | .str _ | .arr _ => ⟨m, .value _, .refl m, .value rfl⟩

theorem exists_members (m : Heap) :
    (fields : List (String × Json)) → ∃ (m₂ : Heap) (members : List (String × Slot)), m.Extends m₂ ∧
    members.map Prod.fst = fields.map Prod.fst ∧
      ∀ name slot value, members.lookup name = some slot → Fields.get? fields name = some value →
        m₂.Holds slot value
  | [] => ⟨m, [], .refl m, rfl, nofun⟩
  | (name, v) :: rest => by
    obtain ⟨m₁, slot, hm₁, hheld⟩ := exists_holds m v
    obtain ⟨m₂, members, hm₂, hnames, hinside⟩ := exists_members m₁ rest
    refine ⟨m₂, (name, slot) :: members, hm₁.trans hm₂, congrArg (name :: ·) hnames,
      fun other slot' value hslot hvalue => ?_⟩
    rw [Keyed.lookup_cons] at hslot
    rw [Fields.get?, Keyed.lookup_cons] at hvalue
    split_ifs at hslot hvalue
    · cases hslot
      cases hvalue
      exact hheld.of_extends hm₂
    · exact hinside other slot' value hslot hvalue

end

end Values

end Heap

end StacCatalog
