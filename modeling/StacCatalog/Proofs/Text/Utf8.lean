import Mathlib.Tactic.IntervalCases
import StacCatalog.Text.Utf8

/-!
# The bytes of a text are read back as that text
-/

namespace StacCatalog.Text

open List

variable {k : Nat}

theorem lead?_two (hlow : 2 ≤ k) (hhigh : k < 32) : lead? (0xC0 + k) = some ⟨k, 1, 0x80, 0xBF⟩ := by
  interval_cases k <;> rfl

/-- Three bytes are not for what fits in two, and not for surrogates. -/
theorem lead?_three (h : k < 16) :
    lead? (0xE0 + k) =
      some ⟨k, 2, if k = 0 then 0xA0 else 0x80, if k = 13 then 0x9F else 0xBF⟩ := by
  interval_cases k <;> rfl

/-- Four bytes are not for what fits in three, and not for what lies behind the last character. -/
theorem lead?_four (h : k < 5) :
    lead? (0xF0 + k) = some ⟨k, 3, if k = 0 then 0x90 else 0x80, if k = 4 then 0x8F else 0xBF⟩ := by
  interval_cases k <;> rfl

section

variable {b value more low high : Nat} (rest : List Nat)

theorem utf8Pieces_single (h : b < 0x80) :
    utf8Pieces none (b :: rest) = some (Char.ofNat b) :: utf8Pieces none rest := by
  simp [utf8Pieces, startByte, lead?, h]

theorem utf8Pieces_lead (h : lead? b = some ⟨value, more + 1, low, high⟩) :
    utf8Pieces none (b :: rest) = utf8Pieces (some ⟨value, more + 1, low, high⟩) rest := by
  simp [utf8Pieces, startByte, h]

theorem utf8Pieces_inner (hlow : low ≤ b) (hhigh : b ≤ high) :
    utf8Pieces (some ⟨value, more + 2, low, high⟩) (b :: rest) =
      utf8Pieces (some ⟨value * 64 + b % 64, more + 1, 0x80, 0xBF⟩) rest := by
  simp [utf8Pieces, hlow, hhigh]

theorem utf8Pieces_last (hlow : low ≤ b) (hhigh : b ≤ high) :
    utf8Pieces (some ⟨value, 1, low, high⟩) (b :: rest) =
      some (Char.ofNat (value * 64 + b % 64)) :: utf8Pieces none rest := by
  simp [utf8Pieces, hlow, hhigh]

end

theorem utf8Pieces_utf8Char (c : Char) (rest : List Nat) :
    utf8Pieces none (utf8Char c ++ rest) = some c :: utf8Pieces none rest := by
  have hvalid : c.toNat < 0xD800 ∨ 0xDFFF < c.toNat ∧ c.toNat < 0x110000 := c.valid
  have hback : Char.ofNat c.toNat = c := Char.ofNat_toNat c
  unfold utf8Char
  generalize c.toNat = n at hvalid hback
  by_cases hone : n < 0x80
  · rw [if_pos hone]
    exact (utf8Pieces_single rest hone).trans (by rw [hback])
  rw [if_neg hone]
  by_cases htwo : n < 0x800
  · have hvalue : n / 64 * 64 + (0x80 + n % 64) % 64 = n := by omega
    rw [if_pos htwo, cons_append, singleton_append, utf8Pieces_lead _
      (lead?_two (by omega) (by omega)), utf8Pieces_last _ (by omega) (by omega), hvalue, hback]
  rw [if_neg htwo]
  by_cases hthree : n < 0x10000
  · have hlow : (if n / 4096 = 0 then 0xA0 else 0x80) ≤ 0x80 + n / 64 % 64 := by split <;> omega
    have hhigh : 0x80 + n / 64 % 64 ≤ if n / 4096 = 13 then 0x9F else 0xBF := by split <;> omega
    have hvalue : (n / 4096 * 64 + (0x80 + n / 64 % 64) % 64) * 64 +
        (0x80 + n % 64) % 64 = n := by omega
    rw [if_pos hthree, cons_append, cons_append, singleton_append,
      utf8Pieces_lead _ (lead?_three (by omega)), utf8Pieces_inner _ hlow hhigh,
      utf8Pieces_last _ (by omega) (by omega), hvalue, hback]
  · have hlow : (if n / 262144 = 0 then 0x90 else 0x80) ≤ 0x80 + n / 4096 % 64 := by split <;> omega
    have hhigh : 0x80 + n / 4096 % 64 ≤ if n / 262144 = 4 then 0x8F else 0xBF := by split <;> omega
    have hvalue : ((n / 262144 * 64 + (0x80 + n / 4096 % 64) % 64) * 64 +
        (0x80 + n / 64 % 64) % 64) * 64 +
        (0x80 + n % 64) % 64 = n := by omega
    rw [if_neg hthree, cons_append, cons_append, cons_append, singleton_append,
      utf8Pieces_lead _ (lead?_four (by omega)), utf8Pieces_inner _ hlow hhigh,
      utf8Pieces_inner _ (by omega) (by omega), utf8Pieces_last _ (by omega) (by omega),
        hvalue, hback]

theorem utf8Pieces_flatMap_utf8Char (cs : List Char) :
    utf8Pieces none (cs.flatMap utf8Char) = cs.map some := by
  induction cs with
  | nil => rfl
  | cons c cs ih => rw [flatMap_cons, utf8Pieces_utf8Char, ih, map_cons]

/-- **The bytes of a text are read back** as that text. -/
theorem decode?_utf8 (s : String) : decode? (utf8 s) = some s.toList := by
  unfold decode? utf8
  have hall : s.toList.mapM (fun c => pure (id c)) =
      (pure (s.toList.map id) : Option (List Char)) := mapM_pure
  rw [utf8Pieces_flatMap_utf8Char, mapM_map]
  exact hall.trans (by rw [map_id]; rfl)

theorem lt_of_mem_utf8 {s : String} {b : Nat} (h : b ∈ utf8 s) : b < 256 := by
  obtain ⟨c, -, hb⟩ := mem_flatMap.mp h
  have hvalid : c.toNat < 0xD800 ∨ 0xDFFF < c.toNat ∧ c.toNat < 0x110000 := c.valid
  unfold utf8Char at hb
  grind

end StacCatalog.Text
