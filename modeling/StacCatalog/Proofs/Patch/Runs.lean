import StacCatalog.Proofs.Patch.Accessors

/-!
# What stands between marks in a path, before and after its keys are put in brackets
-/

namespace StacCatalog.Patch

open List

variable {c : Char} {cs : List Char} {skip : Nat} {key : List Char}

/-! ### Runs -/

/-- The parts of a text between the characters that divide it. -/
def runs (cs : List Char) : List (List Char) :=
  cs.splitOnP isMark

/-- The part of a text before the first character that divides it. -/
def firstRun (cs : List Char) : List Char :=
  cs.takeWhile (!isMark ·)

theorem runs_append_cons (hc : isMark c = true) (front rest : List Char) :
    runs (front ++ c :: rest) = runs front ++ runs rest :=
  splitOnP_append_cons front rest hc

theorem runs_cons (hc : isMark c = true) (rest : List Char) : runs (c :: rest) = [] :: runs rest :=
  runs_append_cons hc [] rest

theorem runs_of_no_mark (h : ∀ c ∈ cs, isMark c = false) : runs cs = [cs] :=
  splitOnP_eq_singleton h

theorem runs_eq (cs : List Char) : runs cs = firstRun cs :: (runs cs).tail := by
  induction cs with
  | nil => rfl
  | cons c rest ih =>
    by_cases hc : isMark c = true
    · rw [runs_cons hc, firstRun, takeWhile_cons_of_neg (by simp [hc]), tail_cons]
    · have hcons : runs (c :: rest) = (runs rest).modifyHead (c :: ·) := by
        rw [runs, splitOnP_cons_eq_if_modifyHead, if_neg hc, runs]
      rw [hcons, ih, modifyHead_cons, tail_cons, firstRun, firstRun,
        takeWhile_cons_of_pos (by simp [hc])]

theorem runs_cons_of_no_mark (hc : isMark c = false) (rest : List Char) :
    runs (c :: rest) = (c :: firstRun rest) :: (runs rest).tail := by
  have hcons : runs (c :: rest) = (runs rest).modifyHead (c :: ·) := by
    rw [runs, splitOnP_cons_eq_if_modifyHead, if_neg (by simp [hc]), runs]
  rw [hcons, runs_eq rest, modifyHead_cons, tail_cons]

theorem runs_indexed (hkey : ∀ c ∈ key, isMark c = false) (rest : List Char) :
    runs (indexed key ++ rest) = [] :: [] :: key :: [] :: runs rest := by
  have hshape : indexed key ++ rest = '[' :: '\'' :: (key ++ '\'' :: ']' :: rest) := by
    simp [indexed]
  rw [hshape, runs_cons (by decide), runs_cons (by decide), runs_append_cons (by decide),
    runs_of_no_mark hkey, runs_cons (by decide), singleton_append]

theorem prefix_firstRun {front : List Char} (hbegins : front <+: cs)
    (h : ∀ c ∈ front, isMark c = false) : front <+: firstRun cs := by
  obtain ⟨rest, rfl⟩ := hbegins
  rw [firstRun, takeWhile_append_of_pos (by simpa using h)]
  exact prefix_append _ _

theorem firstRun_mem_runs (cs : List Char) : firstRun cs ∈ runs cs := by
  rw [runs_eq]
  exact mem_cons_self

theorem exists_run_cons (c : Char) {run rest : List Char} (h : run ∈ runs rest) :
    ∃ longer ∈ runs (c :: rest), run <:+: longer := by
  by_cases hc : isMark c = true
  · rw [runs_cons hc]
    exact ⟨run, mem_cons_of_mem _ h, infix_rfl⟩
  · rw [runs_cons_of_no_mark (by simpa using hc)]
    rw [runs_eq] at h
    rcases mem_cons.mp h with rfl | h
    · exact ⟨_, mem_cons_self, (suffix_cons _ _).isInfix⟩
    · exact ⟨run, mem_cons_of_mem _ h, infix_rfl⟩

/-! ### Keys in brackets -/

section Replaced

variable {key : List Char}

theorem firstRun_replaceKey_prefix (skip : Nat) (cs : List Char) :
    firstRun (replaceKey key skip cs) <+: cs.drop skip := by
  have hindexed (rest) : firstRun (indexed key ++ rest) = [] := by
    simp [indexed, firstRun, isMark]
  fun_induction replaceKey key skip cs with
  | case1 => simp [firstRun]
  | case2 skip c rest ih => exact ih
  | case3 c rest _ ih | case4 c rest _ _ ih =>
    rw [hindexed]
    exact nil_prefix
  | case5 c rest _ _ ih =>
    by_cases hc : isMark c = true
    · simp [firstRun, hc]
    · rw [firstRun, takeWhile_cons_of_pos (by simpa using hc)]
      exact cons_prefix_cons.mpr ⟨rfl, ih⟩

theorem not_infix_firstRun (hkey : key ≠ []) (skip : Nat) (cs : List Char) :
    ¬ key <:+: firstRun (replaceKey key skip cs) := by
  have hnil : ∀ rest, firstRun rest = [] → ¬ key <:+: firstRun rest := by
    intro rest hrest hwithin
    rw [hrest] at hwithin
    exact hkey (eq_nil_of_infix_nil hwithin)
  fun_induction replaceKey key skip cs with
  | case1 => exact hnil _ rfl
  | case2 skip c rest ih => exact ih
  | case3 c rest _ ih | case4 c rest _ _ ih => exact hnil _ (by simp [indexed, firstRun, isMark])
  | case5 c rest _ hstarts ih =>
    by_cases hc : isMark c = true
    · exact hnil _ (by simp [firstRun, hc])
    · rw [firstRun, takeWhile_cons_of_pos (by simpa using hc), infix_cons_iff, not_or]
      refine ⟨fun hbegins => hstarts ?_, ih⟩
      rw [ isPrefixOf_iff_prefix]
      exact hbegins.trans (cons_prefix_cons.mpr ⟨rfl, firstRun_replaceKey_prefix 0 rest⟩)

/-- After a key has been replaced, it stands alone wherever it stands. -/
theorem eq_of_infix_run (hkey : Undivided key) {run : List Char}
    (hrun : run ∈ runs (replaceKey key skip cs)) (h : key <:+: run) : run = key := by
  have hfirst : ∀ skip cs, run = firstRun (replaceKey key skip cs) → run = key := by
    rintro skip cs rfl
    exact absurd h (not_infix_firstRun hkey.ne_nil skip cs)
  have hnil : run = [] → run = key := by
    rintro rfl
    exact absurd (eq_nil_of_infix_nil h) hkey.ne_nil
  fun_induction replaceKey key skip cs with
  | case1 =>
    rw [runs, splitOnP_nil, mem_singleton] at hrun
    exact hnil hrun
  | case2 skip c rest ih => exact ih hrun
  | case3 c rest _ ih | case4 c rest _ _ ih =>
    rw [runs_indexed hkey.no_mark] at hrun
    grind
  | case5 c rest hpoint hstarts ih =>
    by_cases hc : isMark c = true
    · rw [runs_cons hc] at hrun
      exact (mem_cons.mp hrun).elim hnil ih
    · have hcopy : replaceKey key 0 (c :: rest) = c :: replaceKey key 0 rest := by
        rw [replaceKey, if_neg hpoint, if_neg hstarts]
      rw [← hcopy, runs_eq, hcopy, runs_cons_of_no_mark (by simpa using hc),
        tail_cons, ← hcopy] at hrun
      rcases mem_cons.mp hrun with hhead | htail
      · exact hfirst 0 (c :: rest) hhead
      · exact ih (mem_of_mem_tail htail)

/-- What stands between two marks after a key has been replaced stood between two marks before. -/
theorem exists_run_of_replaceKey (hkey : ∀ c ∈ key, isMark c = false) {run : List Char}
    (hrun : run ∈ runs (replaceKey key skip cs)) : ∃ longer ∈ runs cs, run <:+: longer := by
  have hnil : ∀ cs, run = [] → ∃ longer ∈ runs cs, run <:+: longer := by
    rintro cs rfl
    exact ⟨_, firstRun_mem_runs cs, nil_infix⟩
  have hlift : ∀ c rest,
      (∃ longer ∈ runs rest, run <:+: longer) → ∃ longer ∈ runs (c :: rest), run <:+: longer := by
    rintro c rest ⟨longer, hlonger, hwithin⟩
    obtain ⟨whole, hwhole, hinside⟩ := exists_run_cons c hlonger
    exact ⟨whole, hwhole, hwithin.trans hinside⟩
  have hself : ∀ cs, key <+: cs → run = key → ∃ longer ∈ runs cs, run <:+: longer := by
    rintro cs hstarts rfl
    exact ⟨_, firstRun_mem_runs cs, (prefix_firstRun hstarts hkey).isInfix⟩
  have hcut : ∀ cs rest, (run = key → ∃ longer ∈ runs cs, run <:+: longer) →
      (run ∈ runs rest → ∃ longer ∈ runs cs, run <:+: longer) →
        run ∈ runs (indexed key ++ rest) → ∃ longer ∈ runs cs, run <:+: longer := by
    intro cs rest hown hother hrun
    rw [runs_indexed hkey] at hrun
    simp only [mem_cons] at hrun
    rcases hrun with h | h | h | h | h
    · exact hnil _ h
    · exact hnil _ h
    · exact hown h
    · exact hnil _ h
    · exact hother h
  -- An occurrence of the key is made an index, which only cuts the run it stands in.
  fun_induction replaceKey key skip cs with
  | case1 => exact ⟨run, hrun, infix_rfl⟩
  | case2 skip c rest ih => exact hlift c rest (ih hrun)
  | case3 c rest hstarts ih =>
    have hrest : key <+: rest := (cons_prefix_cons.mp ( isPrefixOf_iff_prefix.mp hstarts)).2
    exact hcut _ _ (fun h => hlift c rest (hself rest hrest h)) (fun h => hlift c rest (ih h)) hrun
  | case4 c rest _ hstarts ih =>
    exact hcut _ _ (hself _ ( isPrefixOf_iff_prefix.mp hstarts)) (fun h => hlift c rest (ih h)) hrun
  | case5 c rest _ _ ih =>
    by_cases hc : isMark c = true
    · rw [runs_cons hc] at hrun
      exact (mem_cons.mp hrun).elim (hnil _) fun h => hlift c rest (ih h)
    · rw [runs_cons_of_no_mark (by simpa using hc)] at hrun
      rcases mem_cons.mp hrun with rfl | htail
      · refine ⟨_, firstRun_mem_runs (c :: rest), (prefix_firstRun ?_ ?_).isInfix⟩
        · exact cons_prefix_cons.mpr ⟨rfl, firstRun_replaceKey_prefix 0 rest⟩
        · intro d hd
          rcases mem_cons.mp hd with rfl | hd
          · simpa using hc
          · simpa using mem_takeWhile_imp hd
      · exact hlift c rest (ih (mem_of_mem_tail htail))

end Replaced

theorem eq_of_infix_run_bracketed {order : List (List Char)} (horder : ∀ key ∈ order, Undivided key)
    (hkey : key ∈ order) {path run : List Char} (hrun : run ∈ runs (bracketed order path))
    (h : key <:+: run) : run = key := by
  obtain ⟨before, after, rfl⟩ := append_of_mem hkey
  rw [bracketed, foldl_append, foldl_cons] at hrun
  -- What stands alone goes on standing alone, whatever is replaced next.
  refine foldlRecOn (motive := fun path => ∀ run ∈ runs path, key <:+: run → run = key) after _
    (fun run hrun => eq_of_infix_run (horder key hkey) hrun)
      (fun path halone other hother run hrun hwithin => ?_) run hrun h
  have hundivided := horder other (mem_append_right _ (mem_cons_of_mem _ hother))
  obtain ⟨longer, hlonger, hinside⟩ := exists_run_of_replaceKey hundivided.no_mark hrun
  rw [halone longer hlonger (hwithin.trans hinside)] at hinside
  exact hinside.eq_of_length_le hwithin.length_le

/-! ### Names of a chain -/

/-- The parts of a text between marks that have characters. -/
def words (cs : List Char) : List (List Char) :=
  (runs cs).filter (· ≠ [])

theorem words_append {front rest : List Char} (hrest : ∀ c ∈ rest.head?, isMark c = true) :
    words (front ++ rest) = words front ++ words rest := by
  cases rest with
  | nil => simp [words, runs]
  | cons c rest =>
    have hc := hrest c rfl
    simp [words, runs_append_cons hc, runs_cons hc]

theorem words_of_undivided (hkey : Undivided key) : words key = [key] := by
  simp [words, runs_of_no_mark hkey.no_mark, hkey.ne_nil]

theorem words_indexed (hkey : Undivided key) : words (indexed key) = [key] := by
  rw [words, ← append_nil (indexed key), runs_indexed hkey.no_mark]
  simp [hkey.ne_nil, runs]

theorem words_point (rest : List Char) : words ('.' :: rest) = words rest := by
  simp [words, runs_cons (show isMark '.' = true by decide)]

theorem isMark_head_of_accessors (hall : (accessors cs).2 = []) :
    ∀ c ∈ cs.head?, isMark c = true := by
  intro c hc
  by_contra hmark
  have hnone : accessors cs = ([], cs) := by
    refine accessors_of_head fun d hd => ?_
    rw [Option.mem_unique hd hc]
    constructor <;> rintro rfl <;> exact hmark (by decide)
  rw [hnone] at hall
  dsimp only at hall
  rw [hall] at hc
  cases hc

theorem accessors_eq_words (hall : (accessors cs).2 = [])
    (hnames : ∀ name ∈ (accessors cs).1, Undivided name) : (accessors cs).1 = words cs := by
  fun_induction accessors cs with
  | case1 rest hnone => cases hall
  | case2 rest hsome names behind hread ih =>
    have hwhole : (accessors (rest.dropWhile isNameChar)).2 = [] := by
      rwa [hread]
    obtain ⟨hname, hnames⟩ := forall_mem_cons.mp hnames
    rw [hread] at ih
    rw [words_point, ← takeWhile_append_dropWhile (p := isNameChar) (l := rest),
      words_append (isMark_head_of_accessors hwhole), words_of_undivided hname, ← ih hall hnames]
    simp
  | case3 rest hclosed names behind hread ih =>
    have hwhole : (accessors ((rest.dropWhile (· != '\'')).drop 2)).2 = [] := by
      rwa [hread]
    obtain ⟨hname, hnames⟩ := forall_mem_cons.mp hnames
    rw [hread] at ih
    rw [eq_indexed_append hclosed, words_append (isMark_head_of_accessors hwhole),
      words_indexed hname, ← ih hall hnames]
    rfl
  | case4 rest hopen => cases hall
  | case5 cs hpoint hindex =>
    dsimp only at hall
    subst hall
    rfl

theorem words_flatMap_accessor {keys : List (List Char)} (hkeys : ∀ key ∈ keys, Undivided key) :
    words (keys.flatMap accessor) = keys := by
  have hread := accessors_flatMap hkeys
  rw [← accessors_eq_words (by rw [hread]) (by rw [hread]; exact hkeys), hread]

end StacCatalog.Patch
