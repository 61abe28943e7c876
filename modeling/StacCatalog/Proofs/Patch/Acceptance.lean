import StacCatalog.Proofs.Patch.Numbers
import StacCatalog.Proofs.Patch.Quotes

/-!
# Which pointers are accepted, and which of them end in a position
-/

namespace StacCatalog.Patch

open List Outcome

variable {key : List Char} {pointer last : String} {front : List String} {n : Option Int}
    {tail : List Char}

/-! ### Keys -/

/-- A key that is searched for as it is, or else is a pattern in whose place it can be put. -/
def Bracketable (key : List Char) : Prop :=
  key.any isPatternChar = true → ∃ p parts, Text.Pattern.parse ("\\.?".toList ++ key) = .ok p ∧
    Text.Pattern.pieces p ((indexed key).length + 1) (Text.Pattern.signs (indexed key)) = .ok parts

theorem exists_writeIndexed_iff (path key : List Char) :
    (∃ out, writeIndexed path key = .ok out) ↔ Bracketable key := by
  unfold writeIndexed Bracketable
  split
  · rename_i hpattern
    simp [hpattern, Text.Pattern.replaceAll, bind_eq_ok]
  · rename_i hplain
    simp [hplain]

theorem exists_foldlM_iff (keys : List (List Char)) (path : List Char) :
    (∃ out, keys.foldlM writeIndexed path = .ok out) ↔ ∀ key ∈ keys, Bracketable key := by
  induction keys generalizing path with
  | nil => simp
  | cons key keys ih =>
    rw [foldlM_cons, forall_mem_cons, ← exists_writeIndexed_iff path key]
    constructor
    · rintro ⟨out, hout⟩
      obtain ⟨next, hnext, hrest⟩ := bind_eq_ok.mp hout
      exact ⟨⟨next, hnext⟩, (ih next).mp ⟨out, hrest⟩⟩
    · rintro ⟨⟨next, hnext⟩, hrest⟩
      obtain ⟨out, hout⟩ := (ih next).mpr hrest
      exact ⟨out, bind_eq_ok.mpr ⟨next, hnext, hout⟩⟩

theorem indexedKeys_nil : indexedKeys [] = [] := by
  decide

/-- Behind a point, the keys of a path are those of what stands there. -/
theorem mem_indexedKeys_append {xs ys : List Char} :
    key ∈ indexedKeys (xs ++ '.' :: ys) ↔ key ∈ indexedKeys xs ∨ key ∈ indexedKeys ys := by
  simp only [mem_indexedKeys, splitOnP_append_cons xs ys (show isKeyBreak '.' = true by decide),
    mem_append, or_and_right, exists_or]

/-- A bracket behind a key ends it, if there is no colon later on. -/
theorem indexedPart?_bracket (cs : List Char) (h : ':' ∉ tail) :
    indexedPart? (cs ++ '[' :: tail) = indexedPart? cs := by
  have htail : ':' ∉ '[' :: tail := by simp [h]
  by_cases hcolon : ':' ∈ cs
  · obtain ⟨front, after, rfl, hno⟩ := exists_last hcolon
    have hafter : ':' ∉ after ++ '[' :: tail := by simp [hno, h]
    have htake : (after ++ '[' :: tail).takeWhile (· != '[') = after.takeWhile (· != '[') := by
      rw [takeWhile_append]
      split
      · rename_i hlength
        simp [( takeWhile_prefix _).eq_of_length hlength]
      · rfl
    rw [append_assoc, cons_append, indexedPart?_append hafter, indexedPart?_append hno, htake]
  · rw [indexedPart?_of_notMem hcolon, indexedPart?_of_notMem]
    exact fun hmem => (mem_append.mp hmem).elim hcolon htail

/-- What stands behind a text without a break belongs to its last part. -/
theorem splitOnP_append_of_forall {p : Char → Bool} (h : ∀ c ∈ tail, p c = false) (cs : List Char) :
    ∃ parts part,
      cs.splitOnP p = parts ++ [part] ∧ (cs ++ tail).splitOnP p = parts ++ [part ++ tail] := by
  induction cs with
  | nil => exact ⟨[], [], splitOnP_nil .., splitOnP_eq_singleton h⟩
  | cons c cs ih =>
    obtain ⟨parts, part, hcs, htail⟩ := ih
    rw [cons_append, splitOnP_cons_eq_if_modifyHead, splitOnP_cons_eq_if_modifyHead, hcs, htail]
    split
    · exact ⟨[] :: parts, part, rfl, rfl⟩
    · cases parts with
      | nil => exact ⟨[], c :: part, rfl, rfl⟩
      | cons first parts => exact ⟨(c :: first) :: parts, part, rfl, rfl⟩

theorem mem_indexedKeys_bracket (cs : List Char) (hcolon : ':' ∉ tail)
    (hbreak : ∀ c ∈ tail, isKeyBreak c = false) :
    key ∈ indexedKeys (cs ++ '[' :: tail) ↔ key ∈ indexedKeys cs := by
  have htail : ∀ c ∈ '[' :: tail, isKeyBreak c = false := forall_mem_cons.mpr ⟨by decide, hbreak⟩
  obtain ⟨parts, part, hcs, hwhole⟩ := splitOnP_append_of_forall htail cs
  simp only [mem_indexedKeys, hcs, hwhole, mem_append, mem_singleton, or_and_right,
    exists_or, exists_eq_left, indexedPart?_bracket part hcolon]

/-! ### Pointers -/

/-- Whether all keys of a path that are written as an index can be. -/
def Writable (path : List Char) : Prop :=
  ∀ key ∈ indexedKeys path, Bracketable key

theorem exists_scriptChars_iff (path : List Char) :
    (∃ out, scriptChars path = .ok out) ↔ Writable path :=
  exists_foldlM_iff (indexedKeys path) path

theorem exists_nestChars_iff (nest : List Char) :
    (∃ out, nestChars nest = .ok out) ↔ Writable nest := by
  unfold nestChars
  split
  · rename_i hempty
    simp [Writable, isEmpty_iff.mp hempty, indexedKeys_nil]
  · rw [← exists_scriptChars_iff]
    cases scriptChars nest <;> simp [Except.map]

theorem writable_joined_concat (front : List String) (last : String) :
    Writable (joined (front ++ [last])) ↔ Writable (joined front) ∧ Writable last.toList := by
  by_cases hfront : front = []
  · subst hfront
    simp [Writable, joined, indexedKeys_nil]
  · rw [joined_concat hfront]
    simp only [Writable, mem_indexedKeys_append, or_imp, forall_and]

theorem writable_of_notMem {cs : List Char} (h : ':' ∉ cs) : Writable cs := by
  intro key hkey
  obtain ⟨part, hpart, hindexed⟩ := mem_indexedKeys.mp hkey
  rw [indexedPart?_of_notMem fun hcolon => h ((of_mem_splitOnP hpart).1.subset hcolon)] at hindexed
  cases hindexed

theorem writable_position (cs : List Char) (n : Int) :
    Writable (cs ++ '[' :: (toString n).toList ++ [']']) ↔ Writable cs := by
  have htail : ∀ c ∈ (toString n).toList ++ [']'], c ≠ ':' ∧ isKeyBreak c = false := by
    intro c hc
    have hc : c.isDigit = true ∨ c = '-' ∨ c = ']' := by
      rcases mem_append.mp hc with hnumber | hbracket
      · exact (mem_toString_int hnumber).imp_right .inl
      · exact .inr (.inr (mem_singleton.mp hbracket))
    rcases hc with hdigit | rfl | rfl
    · have hnone : ∀ other, Char.isDigit other = false → c ≠ other := by
        rintro other hother rfl
        rw [hdigit] at hother
        cases hother
      simp [isKeyBreak, hnone]
    · decide
    · decide
  rw [append_assoc, cons_append]
  exact forall_congr' fun key => imp_congr_left
    (mem_indexedKeys_bracket cs (fun hcolon => (htail _ hcolon).1 rfl) fun c hc => (htail c hc).2)

/-- The parts of a pointer have no keys but its own. -/
theorem exists_parts_iff (hkeys : keysOf pointer = front ++ [last])
    (hlast : position? last.toList = .ok n) :
    (Writable (partsAt (joined (front ++ [last])) n).1 ∧
      Writable (partsAt (joined (front ++ [last])) n).2.1 ∧
      Writable (partsAt (joined (front ++ [last])) n).2.2.2) ↔
      Writable (joined (front ++ [last])) := by
  cases n with
  | none =>
    rw [partsAt, splitLast_keysOf hkeys]
    exact and_iff_left_of_imp (writable_joined_concat front last).mp
  | some n =>
    have hcolon : ':' ∉ last.toList := by
      rcases (isSome_position_iff hlast).mp rfl with hminus | hsigned
      · simp [hminus]
      · exact fun hmem => absurd (eq_minus_or_isDigit hsigned.numeric _ hmem) (by decide)
    rw [partsAt, splitLast_keysOf hkeys, writable_position, writable_joined_concat, and_iff_left
      (writable_of_notMem hcolon)]
    refine and_iff_left_of_imp fun hfront => ?_
    rcases eq_nil_or_concat front with rfl | ⟨outer, array, rfl⟩
    · exact ⟨writable_of_notMem not_mem_nil, writable_of_notMem not_mem_nil⟩
    · rw [concat_eq_append] at hkeys hfront ⊢
      rw [splitLast_joined
        (point_notMem_of_mem_keysOf (show array ∈ keysOf pointer by simp [hkeys]))]
      exact (writable_joined_concat outer array).mp hfront

def lastKey (pointer : String) : List Char :=
  ((keysOf pointer).getLastD "").toList

theorem lastKey_eq (hkeys : keysOf pointer = front ++ [last]) : lastKey pointer = last.toList := by
  rw [lastKey, hkeys, getLastD_concat]

theorem exists_path_iff (pointer : String) : (∃ p, Path.ofPointer pointer = .ok p) ↔
    Writable (joined (keysOf pointer)) ∧ ∃ n, position? (lastKey pointer) = .ok n := by
  obtain ⟨front, last, hkeys⟩ := exists_keys pointer
  rw [Path.ofPointer_eq, lastKey_eq hkeys, hkeys, splitLast_keysOf hkeys]
  constructor
  · rintro ⟨p, hp⟩
    simp only [bind_eq_ok] at hp
    obtain ⟨n, hn, path, hpath, nest, hnest, key, hkey, -⟩ := hp
    exact ⟨(exists_parts_iff hkeys hn).mp ⟨(exists_scriptChars_iff _).mp ⟨path, hpath⟩,
      (exists_nestChars_iff _).mp ⟨nest, hnest⟩, (exists_scriptChars_iff _).mp ⟨key, hkey⟩⟩, n, hn⟩
  · rintro ⟨hwritable, n, hn⟩
    obtain ⟨hpath, hnest, hkey⟩ := (exists_parts_iff hkeys hn).mpr hwritable
    obtain ⟨path, hpath⟩ := (exists_scriptChars_iff _).mpr hpath
    obtain ⟨nest, hnest⟩ := (exists_nestChars_iff _).mpr hnest
    obtain ⟨key, hkey⟩ := (exists_scriptChars_iff _).mpr hkey
    simp [hn, hpath, hnest, hkey]

theorem index_ne_null_iff (p : Path) : p.index ≠ .null ↔ p.position.isSome = true := by
  unfold Path.index
  cases p.position with
  | none => simp
  | some n =>
    dsimp only
    split <;> simp

/-- **Acceptance.** A pointer is accepted exactly if each of its keys that is written as an index
can be, and its last key, if it looks like a number, is one of no more than the greatest length,
behind at most one sign. It ends in a position exactly if the last key is a sign or such a number.
So a pointer is accepted and ends in a position exactly if the last key is a sign or a number in
plain digits just if, besides the former, no last key looks like a number in another way. -/
theorem ofPointer_accepts_iff (pointer : String) :
    ((∃ p, Path.ofPointer pointer = .ok p) ↔
      Writable (joined (keysOf pointer)) ∧
      (numeric (lastKey pointer) = true →
        Signed Text.decimals.has (lastKey pointer) ∧
        ((lastKey pointer).filter Text.isDigit).length ≤ Text.maxDigits)) ∧
    (∀ p, Path.ofPointer pointer = .ok p →
      (p.index ≠ .null ↔ lastKey pointer = ['-'] ∨ Signed Text.decimals.has (lastKey pointer))) ∧
    ((∃ p, Path.ofPointer pointer = .ok p ∧
          (p.index ≠ .null ↔ lastKey pointer = ['-'] ∨ Signed Char.isDigit (lastKey pointer))) ↔
      Writable (joined (keysOf pointer)) ∧
      (numeric (lastKey pointer) = true →
        Signed Char.isDigit (lastKey pointer) ∧
        ((lastKey pointer).filter Text.isDigit).length ≤ Text.maxDigits)) := by
  have hbuilt := exists_path_iff pointer
  rw [exists_position?_iff] at hbuilt
  have hindex : ∀ p, Path.ofPointer pointer = .ok p →
      (p.index ≠ .null ↔ lastKey pointer = ['-'] ∨ Signed Text.decimals.has (lastKey pointer)) := by
    intro p hp
    obtain ⟨front, last, hkeys⟩ := exists_keys pointer
    rw [index_ne_null_iff, isSome_position_iff (position?_of_ofPointer hkeys hp), lastKey_eq hkeys]
  have hdecimal :
      Signed Char.isDigit (lastKey pointer) → Signed Text.decimals.has (lastKey pointer) :=
    And.imp_right fun h c hc => decimals_of_isDigit (h c hc)
  have hminus : numeric (lastKey pointer) = true → lastKey pointer ≠ ['-'] := by
    intro hdigits heq
    rw [heq] at hdigits
    cases hdigits
  refine ⟨hbuilt, hindex, ?_⟩
  constructor
  · rintro ⟨p, hp, hplain⟩
    obtain ⟨hkeys, hnumber⟩ := hbuilt.mp ⟨p, hp⟩
    refine ⟨hkeys, fun hdigits => ?_⟩
    obtain ⟨hsigned, hcount⟩ := hnumber hdigits
    exact ⟨(hplain.mp ((hindex p hp).mpr (.inr hsigned))).resolve_left (hminus hdigits), hcount⟩
  · rintro ⟨hkeys, hnumber⟩
    obtain ⟨p, hp⟩ := hbuilt.mpr ⟨hkeys, fun hdigits => (hnumber hdigits).imp_left hdecimal⟩
    exact ⟨p, hp, (hindex p hp).trans (or_congr_right ⟨fun h => (hnumber h.numeric).1, hdecimal⟩)⟩

end StacCatalog.Patch
