import Mathlib.Data.List.Basic
import StacCatalog.Patch.Operation
import StacCatalog.Proofs.Json.Fields

/-!
# Applying operations to a document
-/

namespace StacCatalog

open List Fields Option

variable {key : String} {change : Fields → String → Option Fields} {op : Patch.Operation}
  {ops : List Patch.Operation} {fields : Fields}

namespace Patch

/-! ### Paths -/

/-- The keys of a path. Slashes before the first key count for nothing; between keys stand points or
slashes. -/
def keysOf (pointer : String) : List String :=
  (((pointer.toList.dropWhile (· == '/')).map fun c => if c = '/' then '.' else c).splitOn '.').map
    String.ofList

theorem keysOf_ne_nil (pointer : String) : keysOf pointer ≠ [] := by
  unfold keysOf
  rw [Ne, map_eq_nil_iff]
  exact splitOn_ne_nil _ _

theorem keysOf_of_no_slash {pointer : String} (h : '/' ∉ pointer.toList) :
    keysOf pointer = (pointer.toList.splitOn '.').map String.ofList := by
  have hdrop : pointer.toList.dropWhile (· == '/') = pointer.toList := by
    cases hcs : pointer.toList with
    | nil => rfl
    | cons c rest =>
      rw [dropWhile_cons_of_neg]
      intro hc
      rw [hcs, ← eq_of_beq hc] at h
      exact h mem_cons_self
  have hmap : pointer.toList.map (fun c => if c = '/' then '.' else c) = pointer.toList := by
    conv_rhs => rw [← map_id pointer.toList]
    refine map_congr_left fun c hc => if_neg ?_
    rintro rfl
    exact h hc
  rw [keysOf, hdrop, hmap]

/-- A key that can stand in a path: it has characters, and none of them divides keys. -/
def PlainKey (key : String) : Prop :=
  key ≠ "" ∧ '.' ∉ key.toList ∧ '/' ∉ key.toList

theorem keysOf_plain (h : PlainKey key) : keysOf key = [key] := by
  rw [keysOf_of_no_slash h.2.2, splitOn_eq_singleton h.2.1]
  simp

theorem keysOf_under {pointer : String} (h : PlainKey key) (hp : '/' ∉ pointer.toList) :
    keysOf (key ++ "." ++ pointer) = key :: keysOf pointer := by
  have hchars : (key ++ "." ++ pointer).toList = key.toList ++ '.' :: pointer.toList := by simp
  have hno : '/' ∉ (key ++ "." ++ pointer).toList := by
    rw [hchars, mem_append, mem_cons, not_or, not_or]
    exact ⟨h.2.2, by decide, hp⟩
  rw [keysOf_of_no_slash hno, keysOf_of_no_slash hp, hchars, splitOn_append_cons_self,
    splitOn_eq_singleton h.2.1]
  simp

/-- The paths that an operation names: where it acts, and where it takes a value from. -/
def Operation.paths : Operation → List String
  | .move source path | .copy source path => [path, source]
  | op => [op.path]

/-! ### Applying -/

/-- Walks down through objects and changes the one that holds the last key. -/
def edit (change : Fields → String → Option Fields) : List String → Json → Option Json
  | [], _ => none
  | [key], .obj fields => (change fields key).map .obj
  | key :: rest, .obj fields =>
    match get? fields key with
    | some inner => (edit change rest inner).map fun inner => .obj (insert fields key inner)
    | none => none
  | _, _ => none

namespace Operation

/-- The document after an operation; `none` if the operation fails. Merge patches need no operations
but these two: a member is set, or a member that is there is deleted. -/
def applyTo (op : Operation) (document : Json) : Option Json :=
  match op with
  | .add path value =>
    edit (fun fields key => some (insert fields key value)) (keysOf path) document
  | .remove path =>
    edit (fun fields key => if has fields key then some (erase fields key) else none)
      (keysOf path) document
  | _ => none

end Operation

/-- The document after a list of operations, in order; `none` as soon as one of them fails. -/
def applyAll (ops : List Operation) (document : Json) : Option Json :=
  ops.foldlM (fun document op => op.applyTo document) document

@[simp] theorem applyAll_nil (document : Json) : applyAll [] document = some document := rfl

theorem applyAll_cons (op ops) (document : Json) :
    applyAll (op :: ops) document = (op.applyTo document).bind (applyAll ops) := rfl

theorem applyAll_append (ops more : List Operation) (document : Json) :
    applyAll (ops ++ more) document = (applyAll ops document).bind (applyAll more) := by
  induction ops generalizing document with
  | nil => rfl
  | cons op ops ih =>
    rw [cons_append, applyAll_cons, applyAll_cons, bind_assoc]
    exact congrArg _ (funext ih)

/-! ### Operations below a key -/

theorem edit_cons {rest : List String} (hrest : rest ≠ []) (fields) :
    edit change (key :: rest) (.obj fields) =
      (get? fields key).bind
        fun inner => (edit change rest inner).map fun inner => .obj (insert fields key inner) := by
  cases rest with
  | nil => exact absurd rfl hrest
  | cons next rest =>
    rw [edit]
    · cases get? fields key <;> rfl
    · simp

theorem edit_eq_none {document : Json} (h : ∀ fields, document ≠ .obj fields) (keys : List String) :
    edit change keys document = none := by
  fun_cases edit change keys document with
  | case2 key fields | case3 key rest fields | case4 key rest fields => exact absurd rfl (h fields)
  | _ => rfl

theorem Operation.applyTo_under (hkey : PlainKey key) (hop : '/' ∉ op.path.toList) (fields) :
    (op.under key).applyTo (.obj fields) = (get? fields key).bind fun inner =>
        (op.applyTo inner).map fun inner => .obj (insert fields key inner) := by
  cases op with
  | add path value | remove path =>
    have hpath : '/' ∉ path.toList := hop
    simp only [under, applyTo, keysOf_under hkey hpath]
    exact edit_cons (keysOf_ne_nil path) fields
  | _ => cases get? fields key <;> rfl

theorem applyAll_under (hkey : PlainKey key) (hops : ∀ op ∈ ops, '/' ∉ op.path.toList)
    {inner : Json} (hinner : get? fields key = some inner) :
    applyAll (ops.map (·.under key)) (.obj fields) =
      (applyAll ops inner).map fun inner => .obj (insert fields key inner) := by
  induction ops generalizing fields inner with
  | nil => simp [insert_get? hinner]
  | cons op ops ih =>
    have hop := hops op mem_cons_self
    have hrest : ∀ op ∈ ops, '/' ∉ op.path.toList := fun op h => hops op (mem_cons_of_mem _ h)
    rw [map_cons, applyAll_cons, Operation.applyTo_under hkey hop, hinner, bind_some, applyAll_cons]
    cases op.applyTo inner with
    | none => rfl
    | some inner' =>
      have hinner' : get? (insert fields key inner') key = some inner' := by
        rw [get?_insert, if_pos rfl]
      rw [map_some, bind_some, bind_some, ih hrest hinner']
      simp only [insert_insert]

/-- Operations below a key fail if there is one of them and no object in the member of that key. -/
theorem applyAll_under_eq_none (hkey : PlainKey key) (hop : '/' ∉ op.path.toList)
    (hinner : ∀ inner, get? fields key ≠ some (.obj inner)) :
    applyAll ((op :: ops).map (·.under key)) (.obj fields) = none := by
  have hfail : ∀ inner, get? fields key = some inner → op.applyTo inner = none := by
    rintro inner h
    have hno : ∀ members, inner ≠ .obj members := by
      rintro members rfl
      exact hinner members h
    cases op <;> simp only [Operation.applyTo, edit_eq_none hno]
  rw [map_cons, applyAll_cons, Operation.applyTo_under hkey hop]
  cases h : get? fields key with
  | none => rfl
  | some inner => rw [bind_some, hfail inner h]; rfl

end Patch

end StacCatalog
