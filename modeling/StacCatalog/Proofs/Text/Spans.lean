import Mathlib.Data.List.TakeWhile

/-!
# The part of a text in front of a character, and the rest
-/

namespace StacCatalog

open List

variable {stop : Char} {body rest : List Char}

theorem takeWhile_append_stop {p : Char → Bool} (hbody : ∀ c ∈ body, p c = true)
    (hrest : ∀ c ∈ rest.head?, p c = false) :
    (body ++ rest).takeWhile p = body ∧ (body ++ rest).dropWhile p = rest := by
  rw [takeWhile_append_of_pos hbody, dropWhile_append_of_pos hbody]
  cases rest with
  | nil => simp
  | cons c rest => simp [hrest c rfl]

theorem bne_of_notMem (h : stop ∉ body) : ∀ c ∈ body, (c != stop) = true :=
  fun _ hc => bne_iff_ne.mpr (ne_of_mem_of_not_mem hc h)

theorem takeWhile_append_char (hbody : stop ∉ body) (hrest : ∀ c ∈ rest.head?, c = stop) :
    (body ++ rest).takeWhile (· != stop) = body ∧ (body ++ rest).dropWhile (· != stop) = rest := by
  refine takeWhile_append_stop (bne_of_notMem hbody) fun c hc => ?_
  rw [hrest c hc, bne_self_eq_false]

theorem notMem_takeWhile (stop : Char) (cs : List Char) : stop ∉ cs.takeWhile (· != stop) := by
  intro h
  simpa using mem_takeWhile_imp h

end StacCatalog
