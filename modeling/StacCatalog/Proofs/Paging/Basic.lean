import Mathlib.Algebra.Order.Floor.Div
import StacCatalog.Proofs.Program.Run

/-!
# Reading on from page to page, and lists cut into pages
-/

namespace StacCatalog

open List

variable {α σ : Type}

def ListsHits (answer : Json) (hits : List Json) : Prop :=
  ∃ found, answer.item "hits" = .ok found ∧ found.item "hits" = .ok (.arr hits)

/-- Of a list in a strict order, what comes after one element is the part behind it. -/
theorem filter_of_pairwise {R : α → α → Bool} (hasymm : ∀ a b, R a b = true → R b a = false)
    {pre rest : List α} {a : α} (h : (pre ++ a :: rest).Pairwise fun a b => R a b = true) :
    (pre ++ a :: rest).filter (R a) = rest := by
  rw [pairwise_append, pairwise_cons] at h
  obtain ⟨-, ⟨hrest, -⟩, hcross⟩ := h
  have hpre : ∀ b ∈ pre ++ [a], ¬ R a b = true := by
    intro b hb hafter
    have hbefore : R b a = true := by
      rcases mem_append.mp hb with hb | hb
      · exact hcross b hb a mem_cons_self
      · rwa [mem_singleton.mp hb] at hafter ⊢
    rw [hasymm b a hbefore] at hafter
    cases hafter
  rw [append_cons, filter_append, filter_eq_nil_iff.mpr hpre, nil_append, filter_eq_self.mpr hrest]

/-- The pages are the list cut into pieces of `limit`: the last one may be shorter, and a list
without elements is one empty page. -/
structure Pages (limit : Nat) (whole : List α) (pages : List (List α)) : Prop where
  count : pages.length = max 1 (whole.length ⌈/⌉ limit)
  full : ∀ page ∈ pages.dropLast, page.length = limit
  flatten : pages.flatten = whole

namespace Pages

variable {limit : Nat} {whole : List α} {pages : List (List α)}

theorem single (hl : 0 < limit) (h : whole.length ≤ limit) : Pages limit whole [whole] where
  count := by
    have : whole.length ⌈/⌉ limit ≤ 1 := by
      rw [ceilDiv_le_iff_le_mul hl]
      omega
    simp only [length_singleton]
    omega
  full := by simp
  flatten := by simp

theorem ceilDiv_of_lt (hl : 0 < limit) {n : Nat} (h : limit < n) :
    n ⌈/⌉ limit = max 1 ((n - limit) ⌈/⌉ limit) + 1 := by
  have hpos : 1 ≤ (n - limit) ⌈/⌉ limit := by
    rw [Nat.ceilDiv_eq_add_pred_div, Nat.le_div_iff_mul_le hl]
    omega
  rw [Nat.max_eq_right hpos, Nat.ceilDiv_eq_add_pred_div,
    Nat.ceilDiv_eq_add_pred_div, ← Nat.add_div_right _ hl]
  congr 1
  omega

theorem cons (hl : 0 < limit) (hlt : limit < whole.length)
    (h : Pages limit (whole.drop limit) pages) : Pages limit whole (whole.take limit :: pages) where
  count := by
    have hrest := h.count
    rw [length_drop] at hrest
    rw [length_cons, hrest, ceilDiv_of_lt hl hlt]
    omega
  full := by
    have hne : pages ≠ [] := by
      intro hnil
      have hcount := h.count
      rw [hnil] at hcount
      simp only [length_nil] at hcount
      omega
    rw [dropLast_cons_of_ne_nil hne]
    intro page hpage
    rcases mem_cons.mp hpage with rfl | hmem
    · rw [length_take]
      omega
    · exact h.full page hmem
  flatten := by
    rw [flatten_cons, h.flatten, take_append_drop]

end Pages

/-- A run of a reader of pages from a token on, with the pages it gives. -/
inductive Walk (answer : Answering σ) (read : Json → Program (List α × Json)) :
    Json → σ → List (List α) → Prop where
  /-- The page comes without a token: the run is over. -/
  | last {token : Json} {s t : σ} {page : List α} :
      (read token).run answer s = (.ok (page, .null), t) → Walk answer read token s [page]
  /-- The page comes with a token: the run goes on from it. -/
  | more {token next : Json} {s t : σ} {page : List α} {pages : List (List α)} :
      (read token).run answer s = (.ok (page, next), t) → next ≠ .null →
      Walk answer read next t pages → Walk answer read token s (page :: pages)

namespace Walk

variable {answer : Answering σ} {read : Json → Program (List α × Json)} {limit : Nat}

theorem unique {token : Json} {s : σ} {pages others : List (List α)}
    (h : Walk answer read token s pages) (h' : Walk answer read token s others) :
    others = pages := by
  induction h generalizing others with
  | last hrun =>
    cases h' with
    | last hrun' =>
      rw [hrun] at hrun'
      simp only [Prod.mk.injEq, Except.ok.injEq] at hrun'
      rw [hrun'.1.1]
    | more hrun' hne _ =>
      rw [hrun] at hrun'
      simp only [Prod.mk.injEq, Except.ok.injEq] at hrun'
      exact absurd hrun'.1.2.symm hne
  | more hrun hne _ ih =>
    cases h' with
    | last hrun' =>
      rw [hrun] at hrun'
      simp only [Prod.mk.injEq, Except.ok.injEq] at hrun'
      exact absurd hrun'.1.2 hne
    | more hrun' _ hrest =>
      rw [hrun] at hrun'
      simp only [Prod.mk.injEq, Except.ok.injEq] at hrun'
      obtain ⟨⟨rfl, rfl⟩, rfl⟩ := hrun'
      rw [ih hrest]

/-- **From one page to all of them.** `Ready rest token` says that `rest` is what is still unread at
`token`. If a reader gives the first `limit` elements of what is unread, and a token for the others
exactly if there are any, then its run cuts what is unread into pages. -/
theorem of_step (hl : 0 < limit) (Ready : List α → Json → Prop)
    (step : ∀ rest token s, Ready rest token →
      ∃ next t, (read token).run answer s = (.ok (rest.take limit, next), t) ∧
        (rest.length ≤ limit → next = .null) ∧
        (limit < rest.length → next ≠ .null ∧ Ready (rest.drop limit) next)) :
    ∀ (rest : List α) (token : Json) (s : σ),
      Ready rest token → ∃ pages, Walk answer read token s pages ∧ Pages limit rest pages := by
  -- every page takes `limit > 0` elements away, so the induction is on how many are unread
  intro rest
  induction hn : rest.length using Nat.strong_induction_on generalizing rest with
  | _ n ih =>
    intro token s hready
    obtain ⟨next, t, hrun, hend, hmore⟩ := step rest token s hready
    by_cases hlt : limit < rest.length
    · obtain ⟨hne, hready'⟩ := hmore hlt
      obtain ⟨pages, hwalk, hpages⟩ :=
        ih (rest.drop limit).length (by rw [length_drop]; omega) _ rfl next t hready'
      exact ⟨_, .more hrun hne hwalk, hpages.cons hl hlt⟩
    · have hle : rest.length ≤ limit := by omega
      rw [hend hle, take_of_length_le hle] at hrun
      exact ⟨_, .last hrun, Pages.single hl hle⟩

/-- The same for a reader that takes every full page for a sign of more: its run ends with a page
that is not full, and that one is empty if what is unread fills its pages. -/
theorem of_full_step (hl : 0 < limit) (Ready : List α → Json → Prop)
    (step : ∀ rest token s, Ready rest token →
      ∃ next t, (read token).run answer s = (.ok (rest.take limit, next), t) ∧
        (rest.length < limit → next = .null) ∧
        (limit ≤ rest.length → next ≠ .null ∧ Ready (rest.drop limit) next)) :
    ∀ (rest : List α) (token : Json) (s : σ), Ready rest token →
      ∃ pages, Walk answer read token s pages ∧ pages.length = rest.length / limit + 1 ∧
        pages.flatten = rest := by
  intro rest
  induction hn : rest.length using Nat.strong_induction_on generalizing rest with
  | _ n ih =>
    intro token s hready
    obtain ⟨next, t, hrun, hend, hmore⟩ := step rest token s hready
    subst hn
    by_cases hle : limit ≤ rest.length
    · obtain ⟨hne, hready'⟩ := hmore hle
      obtain ⟨pages, hwalk, hcount, hflatten⟩ :=
        ih (rest.drop limit).length (by rw [length_drop]; omega) _ rfl next t hready'
      refine ⟨_, .more hrun hne hwalk, ?_, ?_⟩
      · rw [length_cons, hcount, length_drop, Nat.div_eq_sub_div hl hle]
      · rw [flatten_cons, hflatten, take_append_drop]
    · have hlt : rest.length < limit := Nat.not_le.mp hle
      rw [hend hlt, take_of_length_le hlt.le] at hrun
      refine ⟨_, .last hrun, ?_, ?_⟩
      · rw [length_singleton, Nat.div_eq_of_lt hlt]
      · exact append_nil rest

end Walk

end StacCatalog
