import StacCatalog.Proofs.Json.Access
import StacCatalog.Proofs.Patch.Accessors
import StacCatalog.Proofs.Patch.Apply

/-!
# The parts of a pointer, by its keys
-/

namespace StacCatalog.Patch

open List

variable {pointer last : String} {p : Path} {front : List String} {c : Char} {cs after : List Char}

/-! ### Keys -/

def joined (keys : List String) : List Char :=
  ['.'].intercalate (keys.map String.toList)

theorem joined_singleton (key : String) : joined [key] = key.toList := by
  simp [joined]

theorem joined_cons_cons (key next : String) (rest : List String) :
    joined (key :: next :: rest) = key.toList ++ '.' :: joined (next :: rest) := by
  simp [joined, intercalate_cons_cons]

theorem mem_joined {keys : List String} (h : c ∈ joined keys) :
    c = '.' ∨ ∃ key ∈ keys, c ∈ key.toList := by
  induction keys with
  | nil => cases h
  | cons key rest ih =>
    cases rest with
    | nil => exact .inr ⟨key, mem_cons_self, by rwa [joined_singleton] at h⟩
    | cons next rest =>
      rw [joined_cons_cons, mem_append, mem_cons] at h
      rcases h with h | h | h
      · exact .inr ⟨key, mem_cons_self, h⟩
      · exact .inl h
      · exact (ih h).imp_right (.imp fun _ => .imp_left (mem_cons_of_mem _))

theorem map_intercalate (f : Char → Char) (point : Char) (parts : List (List Char)) :
    ([point].intercalate parts).map f = [f point].intercalate (parts.map (map f)) := by
  induction parts with
  | nil => rfl
  | cons part rest ih =>
    cases rest with
    | nil => simp
    | cons next rest =>
      simp only [map_cons, intercalate_cons_cons, map_append] at ih ⊢
      rw [ih, map_nil]

theorem of_mem_splitOnP {p : Char → Bool} {cs part : List Char} (h : part ∈ cs.splitOnP p) :
    part.Sublist cs ∧ ∀ c ∈ part, p c = false := by
  induction cs generalizing part with
  | nil =>
    rw [splitOnP_nil, mem_singleton] at h
    simp [h]
  | cons c cs ih =>
    rw [splitOnP_cons_eq_if_modifyHead] at h
    split at h
    · rcases mem_cons.mp h with rfl | h
      · simp
      · exact ⟨(ih h).1.cons c, (ih h).2⟩
    · rename_i hc
      -- The first part has the character, and the others are as before.
      obtain ⟨first, others, hparts⟩ := exists_cons_of_ne_nil (splitOnP_ne_nil p cs)
      rw [hparts, modifyHead_cons] at h
      rw [hparts] at ih
      rcases mem_cons.mp h with rfl | h
      · obtain ⟨hsub, hno⟩ := ih mem_cons_self
        refine ⟨hsub.cons_cons c, fun d hd => ?_⟩
        rcases mem_cons.mp hd with rfl | hd
        · simpa using hc
        · exact hno d hd
      · obtain ⟨hsub, hno⟩ := ih (mem_cons_of_mem _ h)
        exact ⟨hsub.cons c, hno⟩

theorem joined_keysOf (pointer : String) :
    joined (keysOf pointer) =
      (pointer.toList.dropWhile (· == '/')).map fun c => if c = '/' then '.' else c := by
  unfold joined keysOf
  rw [map_map]
  have hid : String.toList ∘ String.ofList = id := by
    funext cs
    exact String.toList_ofList
  rw [hid, map_id, intercalate_splitOn]

theorem point_notMem_of_mem_keysOf {key : String} (h : key ∈ keysOf pointer) :
    '.' ∉ key.toList := by
  unfold keysOf at h
  obtain ⟨part, hpart, rfl⟩ := mem_map.mp h
  rw [String.toList_ofList]
  intro hmem
  exact absurd ((of_mem_splitOnP hpart).2 _ hmem) (by decide)

theorem exists_keys (pointer : String) : ∃ front last, keysOf pointer = front ++ [last] := by
  rcases eq_nil_or_concat (keysOf pointer) with hnil | ⟨front, last, hkeys⟩
  · exact absurd hnil (keysOf_ne_nil pointer)
  · exact ⟨front, last, by rw [hkeys, concat_eq_append]⟩

/-! ### Taking a pointer apart -/

/-- A path with its nest, the point behind it, and its last key, by the position that it ends in. -/
def partsAt (whole : List Char) : Option Int → List Char × List Char × List Char × List Char
  | none => (whole, splitLast whole)
  | some n =>
    ((splitLast whole).1 ++ '[' :: (toString n).toList ++ [']'], splitLast (splitLast whole).1)

def nestChars (nest : List Char) : Outcome (List Char) :=
  if nest.isEmpty then .ok [] else (scriptChars nest).map ('.' :: ·)

theorem Path.ofPointer_eq (pointer : String) : Path.ofPointer pointer = (do
      let position ← position? (splitLast (joined (keysOf pointer))).2.2
      let parts := partsAt (joined (keysOf pointer)) position
      let scriptPath ← scriptChars parts.1
      let scriptNest ← nestChars parts.2.1
      let scriptKey ← scriptChars parts.2.2.2
      return {
        path := String.ofList parts.1
        nest := String.ofList parts.2.1
        joint := String.ofList parts.2.2.1
        key := String.ofList parts.2.2.2
        scriptPath := String.ofList scriptPath
        scriptNest := String.ofList scriptNest
        scriptKey := String.ofList scriptKey
        position }) := by
  rw [joined_keysOf]
  unfold Path.ofPointer
  dsimp only
  generalize (pointer.toList.dropWhile (· == '/')).map (fun c => if c = '/' then '.' else c) = whole
  refine congrArg (position? (splitLast whole).2.2 >>= ·) (funext fun position => ?_)
  cases position with
  | none =>
    refine congrArg (scriptChars whole >>= ·) (funext fun scriptPath => ?_)
    simp only [partsAt]
    unfold nestChars
    split <;> rfl
  | some n =>
    refine congrArg (scriptChars _ >>= ·) (funext fun scriptPath => ?_)
    simp only [partsAt]
    unfold nestChars
    split <;> rfl

/-- The texts of a path that stand in a script are written from its own. -/
def Path.Written (p : Path) : Prop :=
  scriptChars p.path.toList = .ok p.scriptPath.toList ∧ nestChars p.nest.toList =
    .ok p.scriptNest.toList ∧ scriptChars p.key.toList = .ok p.scriptKey.toList

theorem Path.ofPointer_eq_ok_iff :
    Path.ofPointer pointer = .ok p ↔
      position? (splitLast (joined (keysOf pointer))).2.2 = .ok p.position ∧
      (p.path.toList, p.nest.toList, p.joint.toList, p.key.toList) =
        partsAt (joined (keysOf pointer)) p.position ∧
      p.Written := by
  rw [Path.ofPointer_eq]
  simp only [Outcome.bind_eq_ok, Outcome.pure_eq_ok, Except.ok.injEq]
  constructor
  · rintro ⟨position, hposition, scriptPath, hpath, scriptNest, hnest, scriptKey, hkey, rfl⟩
    simp only [Path.Written, String.toList_ofList]
    exact ⟨hposition, trivial, hpath, hnest, hkey⟩
  · rintro ⟨hposition, hparts, hpath, hnest, hkey⟩
    refine ⟨p.position, hposition, ?_⟩
    rw [← hparts]
    exact ⟨_, hpath, _, hnest, _, hkey, by simp⟩

/-! ### The last key -/

theorem exists_last (h : c ∈ cs) : ∃ front after, cs = front ++ c :: after ∧ c ∉ after := by
  obtain ⟨after, front, hcs, hno⟩ := eq_append_cons_of_mem (mem_reverse.mpr h)
  refine ⟨front.reverse, after.reverse, ?_, mt mem_reverse.mp hno⟩
  rw [← reverse_reverse cs, hcs]
  simp

theorem takeWhile_reverse (h : c ∉ after) (front : List Char) :
    (front ++ c :: after).reverse.takeWhile (· != c) = after.reverse := by
  rw [reverse_append, reverse_cons, append_assoc]
  exact (takeWhile_append_char (mt mem_reverse.mp h) (by simp)).1

theorem takeWhile_reverse_of_notMem (h : c ∉ cs) : cs.reverse.takeWhile (· != c) = cs.reverse :=
  takeWhile_eq_self_iff.mpr (bne_of_notMem (mt mem_reverse.mp h))

theorem splitLast_append (h : '.' ∉ after) (front : List Char) :
    splitLast (front ++ '.' :: after) = (front, ['.'], after) := by
  have hlength : front.length + (after.length + 1) - after.length - 1 = front.length := by omega
  unfold splitLast
  dsimp only
  rw [takeWhile_reverse h, length_append, length_cons, length_reverse, if_neg (by omega), hlength,
    take_left, reverse_reverse]

theorem splitLast_of_notMem (h : '.' ∉ cs) : splitLast cs = ([], [], cs) := by
  unfold splitLast
  dsimp only
  rw [takeWhile_reverse_of_notMem h, length_reverse, if_pos rfl]

theorem splitLast_prefix (cs : List Char) : (splitLast cs).1 <+: cs := by
  by_cases h : '.' ∈ cs
  · obtain ⟨front, after, rfl, hno⟩ := exists_last h
    rw [splitLast_append hno]
    exact prefix_append _ _
  · rw [splitLast_of_notMem h]
    exact nil_prefix

theorem joined_concat (hfront : front ≠ []) (last : String) :
    joined (front ++ [last]) = joined front ++ '.' :: last.toList := by
  induction front with
  | nil => exact absurd rfl hfront
  | cons key rest ih =>
    cases rest with
    | nil => simp [joined_cons_cons, joined_singleton]
    | cons next rest =>
      rw [cons_append, cons_append, joined_cons_cons, ← cons_append, ih (cons_ne_nil _ _),
        joined_cons_cons]
      simp

/-- The point behind a nest, if there is a nest. -/
def jointOf (front : List String) : List Char :=
  if front = [] then [] else ['.']

theorem splitLast_joined (hlast : '.' ∉ last.toList) :
    splitLast (joined (front ++ [last])) = (joined front, jointOf front, last.toList) := by
  by_cases hfront : front = []
  · subst hfront
    rw [nil_append, joined_singleton, splitLast_of_notMem hlast]
    rfl
  · rw [joined_concat hfront, splitLast_append hlast, jointOf, if_neg hfront]

theorem splitLast_keysOf (hkeys : keysOf pointer = front ++ [last]) :
    splitLast (joined (front ++ [last])) = (joined front, jointOf front, last.toList) :=
  splitLast_joined (point_notMem_of_mem_keysOf (show last ∈ keysOf pointer by simp [hkeys]))

theorem position?_of_ofPointer (hkeys : keysOf pointer = front ++ [last])
    (hp : Path.ofPointer pointer = .ok p) : position? last.toList = .ok p.position := by
  obtain ⟨hposition, -⟩ := Path.ofPointer_eq_ok_iff.mp hp
  rwa [hkeys, splitLast_keysOf hkeys] at hposition

theorem Path.ofPointer_member_iff (hkeys : keysOf pointer = front ++ [last])
    (hlast : position? last.toList = .ok none) :
    Path.ofPointer pointer = .ok p ↔
      p.position = none ∧
      (p.path.toList, p.nest.toList, p.joint.toList, p.key.toList) =
        (joined (front ++ [last]), joined front, jointOf front, last.toList) ∧
      p.Written := by
  rw [Path.ofPointer_eq_ok_iff, hkeys, splitLast_keysOf hkeys, hlast, Except.ok.injEq, eq_comm]
  refine and_congr_right fun hposition => ?_
  rw [hposition, partsAt, splitLast_keysOf hkeys]

theorem Path.ofPointer_position_iff {array : String} {n : Int}
    (hkeys : keysOf pointer = front ++ [array] ++ [last])
    (hlast : position? last.toList = .ok (some n)) :
    Path.ofPointer pointer = .ok p ↔
      p.position = some n ∧
      (p.path.toList, p.nest.toList, p.joint.toList, p.key.toList) =
        (joined (front ++ [array]) ++ '[' :: (toString n).toList ++ [']'], joined front,
          jointOf front, array.toList) ∧
      p.Written := by
  have harray : '.' ∉ array.toList :=
      point_notMem_of_mem_keysOf (show array ∈ keysOf pointer by simp [hkeys])
  rw [Path.ofPointer_eq_ok_iff, hkeys, splitLast_keysOf hkeys, hlast, Except.ok.injEq, eq_comm]
  refine and_congr_right fun hposition => ?_
  rw [hposition, partsAt, splitLast_keysOf hkeys, splitLast_joined harray]

end StacCatalog.Patch
