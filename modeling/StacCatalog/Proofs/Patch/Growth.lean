import Mathlib.Data.Nat.Find
import StacCatalog.Proofs.Patch.Script

/-!
# The order of the commands in a set, and how a script grows
-/

namespace StacCatalog.Patch.CommandSet

open List Outcome

inductive Step
  | add (command : String)
  | remove (command : String)

/-- The set after a step; a removal that is refused leaves it as it is. -/
def after (set : CommandSet) : Step → CommandSet
  | .add command => set.add command
  | .remove command => (set.remove command).toOption.getD set

def run (steps : List Step) : CommandSet :=
  steps.foldl after []

/-- A step adds a command that no later step removes. -/
def Adds (steps : List Step) (command : String) (i : Nat) : Prop :=
  steps[i]? = some (.add command) ∧ ∀ j, i < j → steps[j]? ≠ some (.remove command)

/-- The earliest step that added a command since it was last removed. -/
def Dates (steps : List Step) (command : String) (i : Nat) : Prop :=
  Adds steps command i ∧ ∀ j < i, ¬ Adds steps command j

/-- A set holds the commands that have a date, in the order of their dates. -/
structure Ordered (steps : List Step) (set : CommandSet) : Prop where
  mem_iff : ∀ command, command ∈ set ↔ ∃ i, Dates steps command i
  pairwise : set.Pairwise fun a b => ∃ i j, Dates steps a i ∧ Dates steps b j ∧ i < j

variable {steps : List Step} {set : CommandSet} {command : String} {i : Nat} {s : Step}

theorem adds_concat_iff : Adds (steps ++ [s]) command i ↔
    s ≠ .remove command ∧ (Adds steps command i ∨ i = steps.length ∧ s = .add command) := by
  unfold Adds
  grind

theorem Adds.lt (h : Adds steps command i) : i < steps.length := by
  grind [Adds]

theorem Adds.exists_dates (h : Adds steps command i) : ∃ j, Dates steps command j := by
  classical exact ⟨Nat.find ⟨i, h⟩, Nat.find_spec _, fun _ => Nat.find_min _⟩

/-- A command keeps its date until it is removed, and gets one when it is added without having one.
-/
theorem dates_concat_iff :
    Dates (steps ++ [s]) command i ↔
      s ≠ .remove command ∧
      (Dates steps command i ∨
        i = steps.length ∧ s = .add command ∧ ¬ ∃ j, Dates steps command j) := by
  have hlt : ∀ j, Adds steps command j → j < steps.length := fun j => Adds.lt
  have hdates : ∀ j, Adds steps command j → ∃ j, Dates steps command j := fun j => Adds.exists_dates
  simp only [Dates, adds_concat_iff] at hdates ⊢
  grind

theorem Ordered.nodup (h : Ordered steps set) : set.Nodup := by
  refine h.pairwise.imp ?_
  rintro a _ ⟨i, j, hi, hj, hlt⟩ rfl
  exact hj.2 i hlt hi.1

theorem remove_of_notMem (h : command ∉ set) :
    set.remove command = .error (.missingKey (.str command)) :=
  if_neg (by simpa using h)

theorem after_remove (h : set.Nodup) (command : String) :
    set.after (.remove command) = set.filter (· != command) := by
  rw [after]
  by_cases hmem : command ∈ set
  · rw [CommandSet.remove, if_pos (by simpa using hmem), ← h.erase_eq_filter]
    rfl
  · rw [remove_of_notMem hmem, filter_eq_self.mpr (by grind)]
    rfl

/-- **One step** keeps a set in order. -/
theorem Ordered.after (h : Ordered steps set) (s : Step) :
    Ordered (steps ++ [s]) (set.after s) := by
  have hmem := h.mem_iff
  cases s with
  | add command =>
    have hdates {other i} : Dates (steps ++ [.add command]) other i ↔
        Dates steps other i ∨ i = steps.length ∧ command = other ∧ command ∉ set := by
      rw [dates_concat_iff, hmem]
      grind
    rw [CommandSet.after, CommandSet.add]
    by_cases hthere : command ∈ set
    · have hsame {other i} : Dates (steps ++ [.add command]) other i ↔
        Dates steps other i := by simp [hdates, hthere]
      rw [if_pos (by simpa using hthere)]
      exact ⟨by simpa only [hsame] using hmem, by simpa only [hsame] using h.pairwise⟩
    · rw [if_neg (by simpa using hthere)]
      refine ⟨fun other => by simp [hdates, exists_or, ← hmem, hthere, eq_comm],
        pairwise_append.mpr ⟨?_, pairwise_singleton .., ?_⟩⟩
      · refine h.pairwise.imp ?_
        rintro a b ⟨i, j, hi, hj, hlt⟩
        exact ⟨i, j, hdates.mpr (.inl hi), hdates.mpr (.inl hj), hlt⟩
      · intro a ha b hb
        rw [mem_singleton.mp hb]
        obtain ⟨i, hi⟩ := (hmem a).mp ha
        exact ⟨i, _, hdates.mpr (.inl hi), hdates.mpr (.inr ⟨rfl, rfl, hthere⟩), hi.1.lt⟩
  | remove command =>
    have hdates {other i} :
        Dates (steps ++ [.remove command]) other i ↔ Dates steps other i ∧ other ≠ command := by
      rw [dates_concat_iff]
      grind
    rw [after_remove h.nodup]
    refine ⟨fun other => by simp [hmem, hdates], pairwise_filter.mpr (h.pairwise.imp ?_)⟩
    grind

theorem ordered_run (steps : List Step) : Ordered steps (run steps) := by
  induction steps using reverseRecOn with
  | nil => exact ⟨by simp [run, Dates, Adds], .nil⟩
  | append_singleton steps s ih =>
    rw [run, foldl_concat]
    exact ih.after s

/-- **Growth.** A command set holds the commands that were added and not removed since, each once
and in the order of the earliest such additions. It refuses to remove what it does not hold, and
stays as it is. The script of a patch is a beginning of the script of every longer one. -/
theorem run_ordered_and_script_extends (steps : List Step) :
    Ordered steps (run steps) ∧ (run steps).Nodup ∧
    (∀ command ∉ run steps, (run steps).remove command = .error (.missingKey (.str command)) ∧
      run (steps ++ [.remove command]) = run steps) ∧
    ∀ ops more s t,
      script ops = .ok s → script (ops ++ more) = .ok t → ∃ rest, t.source = s.source ++ rest := by
  have hordered := ordered_run steps
  refine ⟨hordered, hordered.nodup, fun command hno => ⟨remove_of_notMem hno, ?_⟩,
    fun ops more s t hs ht => ?_⟩
  · rw [run, foldl_concat, after, ← run, remove_of_notMem hno]
    rfl
  · obtain ⟨-, commands, params, hcommands, -, rfl⟩ := script_eq_ok_iff.mp hs
    obtain ⟨-, all, params', hall, -, rfl⟩ := script_eq_ok_iff.mp ht
    rw [mapM_append, hcommands, ok_bind] at hall
    obtain ⟨others, -, heq⟩ := bind_eq_ok.mp hall
    cases heq
    rw [commandSet_eq_eraseDups, flatten_append, map_append, eraseDups_append,
      String.join_append, ← commandSet_eq_eraseDups]
    exact ⟨_, rfl⟩

end StacCatalog.Patch.CommandSet
