import Mathlib.Data.List.TakeWhile
import StacCatalog.Patch.Path

/-!
# The position that the last key of a pointer stands for
-/

namespace StacCatalog.Patch

open List Text

variable {c : Char} {cs key : List Char} {k : Nat} {n : Option Int}

theorem isSome_digitValue?_iff : (digitValue? c).isSome = true ↔ decimals.has c = true := by
  rw [digitValue?, findSome?_isSome_iff, Text.Ranges.has, any_eq_true]
  refine exists_congr fun range => and_congr_right fun _ => ?_
  dsimp only
  split <;> simp_all

theorem isDigit_of_decimals (h : decimals.has c = true) : isDigit c = true := by
  rw [isDigit, h, Bool.true_or]

theorem decimals_of_isDigit (h : c.isDigit = true) : decimals.has c = true := by
  refine any_eq_true.mpr ⟨(0x30, 0x39), mem_cons_self, ?_⟩
  simp only [Char.isDigit, Bool.and_eq_true, decide_eq_true_eq, ge_iff_le,
    UInt32.le_iff_toNat_le] at h ⊢
  exact h

theorem isPadding_of_isDigit (h : isDigit c = true) : isPadding c = false := by
  have hapart : ∀ digits ∈ decimals ++ otherDigits, ∀ blank ∈ blanks,
      digits.2 < blank.1 ∨ blank.2 < digits.1 := by decide
  obtain ⟨digits, hdigits, hin⟩ := any_eq_true.mp (any_append.trans h)
  by_contra hpadding
  rw [Bool.not_eq_false, isPadding, Bool.and_eq_true] at hpadding
  obtain ⟨blank, hblank, hin'⟩ := any_eq_true.mp hpadding.1
  have hor := hapart digits hdigits blank hblank
  simp only [Bool.and_eq_true, decide_eq_true_eq] at hin hin'
  omega

/-! ### Numbers -/

def numberOf? (cs : List Char) : Option Nat :=
  cs.foldlM (fun n c => (digitValue? c).map (n * 10 + ·)) 0

theorem isSome_numberOf?_iff : (numberOf? cs).isSome = true ↔ ∀ c ∈ cs, decimals.has c = true := by
  have hfold : ∀ value,
      (cs.foldlM (fun n c => (digitValue? c).map (n * 10 + ·)) value).isSome = true ↔
        ∀ c ∈ cs, decimals.has c = true := by
    induction cs with
    | nil => simp
    | cons c cs ih =>
      intro value
      rw [foldlM_cons, forall_mem_cons, ← isSome_digitValue?_iff]
      cases digitValue? c with
      | none => simp
      | some d => exact (ih _).trans (and_iff_right rfl).symm
  exact hfold 0

theorem readDigits_eq {value : Nat} (h : '_' ∉ cs) :
    readDigits value cs = cs.foldlM (fun n c => (digitValue? c).map (n * 10 + ·)) value := by
  fun_induction readDigits value cs with
  | case1 value => rfl
  | case2 value c rest ih => exact absurd mem_cons_self h
  | case3 value c rest hother ih =>
    rw [foldlM_cons]
    cases digitValue? c with
    | none => rfl
    | some d => exact ih d fun hmem => h (mem_cons_of_mem _ hmem)

theorem readNat?_eq (hne : cs ≠ []) (h : '_' ∉ cs) : readNat? cs = numberOf? cs := by
  obtain ⟨c, rest, rfl⟩ := exists_cons_of_ne_nil hne
  rw [readNat?, numberOf?, foldlM_cons]
  cases digitValue? c with
  | none => rfl
  | some d =>
    rw [Option.bind_some, readDigits_eq fun hmem => h (mem_cons_of_mem _ hmem)]
    simp

def numeric (key : List Char) : Bool :=
  allDigits (key.dropWhile (· == '-'))

def unsigned : List Char → List Char
  | '-' :: rest => rest
  | key => key

/-- One or more characters of a kind, behind at most one sign. -/
def Signed (p : Char → Bool) (key : List Char) : Prop :=
  unsigned key ≠ [] ∧ ∀ c ∈ unsigned key, p c = true

theorem unsigned_of_ne {rest : List Char} (hc : c ≠ '-') : unsigned (c :: rest) = c :: rest := by
  unfold unsigned
  split
  · rename_i heq
    exact absurd (cons.inj heq).1 hc
  · rfl

theorem numeric_iff : numeric key = true ↔
    key.dropWhile (· == '-') ≠ [] ∧ ∀ c ∈ key.dropWhile (· == '-'), isDigit c = true := by
  rw [numeric, allDigits, Bool.and_eq_true, Bool.not_eq_true', isEmpty_eq_false_iff, all_eq_true]

theorem Signed.numeric (h : Signed decimals.has key) : numeric key = true := by
  obtain ⟨hne, hall⟩ := h
  have hdrop : key.dropWhile (· == '-') = unsigned key := by
    obtain ⟨c, rest, hkey⟩ := exists_cons_of_ne_nil hne
    rw [hkey] at hall ⊢
    have hc : c ≠ '-' := by
      rintro rfl
      exact absurd (hall _ mem_cons_self) (by decide)
    unfold unsigned at hkey
    split at hkey <;> simp [hkey, hc]
  rw [numeric_iff, hdrop]
  exact ⟨hne, fun c hc => isDigit_of_decimals (hall c hc)⟩

section Numeric

variable (h : numeric key = true)

include h

theorem eq_minus_or_isDigit : ∀ c ∈ key, c = '-' ∨ isDigit c = true := by
  intro c hc
  rw [← takeWhile_append_dropWhile (p := (· == '-')) (l := key), mem_append] at hc
  exact hc.imp (fun hsign => by simpa using mem_takeWhile_imp hsign) ((numeric_iff.mp h).2 c)

theorem unsigned_ne_nil : unsigned key ≠ [] := by
  unfold unsigned
  split <;> rintro rfl <;> cases h

theorem readInt?_eq :
    readInt? (String.ofList key) =
      if maxDigits < (key.filter isDigit).length then none
        else (numberOf? (unsigned key)).map
          fun n : Nat => if unsigned key = key then (n : Int) else -n := by
  have hchars := eq_minus_or_isDigit h
  have hpadding : ∀ c ∈ key, isPadding c = false := by
    intro c hc
    rcases hchars c hc with rfl | hdigit
    · decide
    · exact isPadding_of_isDigit hdigit
  have hread : readNat? (unsigned key) = numberOf? (unsigned key) := by
    refine readNat?_eq (unsigned_ne_nil h) fun hmem => ?_
    have hmem : '_' ∈ key := by
      unfold unsigned at hmem
      split at hmem
      · exact mem_cons_of_mem _ hmem
      · exact hmem
    exact absurd (hchars '_' hmem) (by decide)
  unfold readInt?
  dsimp only
  rw [String.toList_ofList, trimNumber, trimBy_of_forall hpadding, ← hread]
  split
  · rfl
  · split
    · rename_i rest _
      have hne : rest ≠ '-' :: rest := fun heq => absurd (congrArg length heq) (by simp)
      rw [unsigned]
      cases readNat? rest <;> simp [hne]
    · exact absurd (hchars '+' mem_cons_self) (by decide)
    · rename_i hminus _
      have hsame : unsigned key = key := by
        unfold unsigned
        split
        · exact absurd rfl (hminus _)
        · rfl
      rw [hsame]
      cases readNat? key <;> simp

end Numeric

theorem exists_position?_iff : (∃ n, position? key = .ok n) ↔ (numeric key = true →
    Signed decimals.has key ∧ (key.filter isDigit).length ≤ maxDigits) := by
  unfold position?
  by_cases hminus : key = ['-']
  · simp [hminus, numeric, allDigits]
  rw [if_neg hminus, ← numeric]
  by_cases hdigits : numeric key = true
  · rw [if_pos hdigits, forall_prop_of_true hdigits, Signed, and_iff_right
      (unsigned_ne_nil hdigits), ← isSome_numberOf?_iff, readInt?_eq hdigits]
    by_cases hcount : maxDigits < (key.filter isDigit).length
    · simp [hcount]
    · cases numberOf? (unsigned key) <;> simp [hcount, Nat.not_lt.mp hcount]
  · simp [hdigits]

theorem isSome_position_iff (h : position? key = .ok n) :
    n.isSome = true ↔ key = ['-'] ∨ Signed decimals.has key := by
  have hread := exists_position?_iff.mp ⟨n, h⟩
  unfold position? at h
  by_cases hminus : key = ['-']
  · rw [if_pos hminus] at h
    simp [← Except.ok.inj h, hminus]
  rw [if_neg hminus, ← numeric] at h
  rw [or_iff_right hminus]
  split at h
  · rename_i hdigits
    split at h
    · simp [← Except.ok.inj h, (hread hdigits).1]
    · cases h
  · rename_i hdigits
    simp [← Except.ok.inj h, mt Signed.numeric hdigits]

theorem position?_eq_none_iff (h : ∀ n, position? key ≠ .ok (some n)) :
    position? key = .ok none ↔ numeric key = false := by
  fun_cases position? key with
  | case1 hdash => exact absurd (if_pos hdash) (h (-1))
  | case2 hdash hdigits n hread =>
    have hposition : position? key = .ok (some n) := by
      rw [position?, if_neg hdash, if_pos hdigits, hread]
    exact absurd hposition (h n)
  | case3 hdash hdigits hread => simp [numeric, hdigits]
  | case4 hdash hdigits => simpa [numeric] using hdigits

/-- A key of decimal digits is the position of their number, if it is read at all. -/
theorem position?_of_numberOf? (hne : key ≠ []) (h : numberOf? key = some k)
    (hposition : position? key = .ok n) : n = some (k : Int) := by
  have hall := isSome_numberOf?_iff.mp (Option.isSome_of_eq_some h)
  obtain ⟨c, rest, rfl⟩ := exists_cons_of_ne_nil hne
  have hc : c ≠ '-' := by
    rintro rfl
    exact absurd (hall _ mem_cons_self) (by decide)
  have hsame : unsigned (c :: rest) = c :: rest := unsigned_of_ne hc
  have hdigits : numeric (c :: rest) = true :=
      Signed.numeric ⟨by rw [hsame]; exact hne, by rwa [hsame]⟩
  have hone : c :: rest ≠ ['-'] := fun heq => hc (cons.inj heq).1
  rw [position?, if_neg hone, ← numeric, if_pos hdigits, readInt?_eq hdigits, hsame, h] at hposition
  split at hposition
  · rename_i heq
    split at heq
    · cases heq
    · rw [← Except.ok.inj hposition, ← heq]
      simp
  · cases hposition

end StacCatalog.Patch
