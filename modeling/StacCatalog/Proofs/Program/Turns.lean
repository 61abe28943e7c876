import Mathlib.Logic.Function.Basic
import StacCatalog.Proofs.Program.Run

/-!
# Programs that take turns with one database
-/

namespace StacCatalog.Program

variable {ι α σ : Type} [DecidableEq ι]

def Ended : Program α → Prop
  | .call .. => False
  | _ => True

/-- Programs that talk to one database, and its state. -/
structure Party (ι α σ : Type) where
  programs : ι → Program α
  state : σ

namespace Party

def goOn (party : Party ι α σ) (i : ι) (p : Program α) (s : σ) : Party ι α σ where
  programs := Function.update party.programs i p
  state := s

@[simp] theorem goOn_self (party : Party ι α σ) (i : ι) (p : Program α) (s : σ) :
    (party.goOn i p s).programs i = p :=
  Function.update_self ..

@[simp] theorem goOn_of_ne (party : Party ι α σ) {i j : ι} (h : j ≠ i) (p : Program α) (s : σ) :
    (party.goOn i p s).programs j = party.programs j :=
  Function.update_of_ne h ..

/-- The next call of one of the programs, and what becomes of the party by it. -/
def turn (answer : Answering σ) (party : Party ι α σ) (i : ι) :
    Option ((ι × Call) × Party ι α σ) :=
  match party.programs i with
  | .done _ | .fail _ => none
  | .call c next =>
    let (reply, s) := answer party.state c
    some ((i, c), party.goOn i (next reply) s)

/-- The calls of a party that follows a schedule, and what becomes of it. -/
def takeTurns (answer : Answering σ) : List ι → Party ι α σ → List (ι × Call) × Party ι α σ
  | [], party => ([], party)
  | i :: schedule, party =>
    match party.turn answer i with
    | none => takeTurns answer schedule party
    | some (made, party) =>
      let (calls, party) := takeTurns answer schedule party
      (made :: calls, party)

def callsOf (i : ι) (past : List (ι × Call)) : List Call :=
  past.filterMap fun made => if made.1 = i then some made.2 else none

section Calls

variable {i j : ι} {past : List (ι × Call)} {c : Call}

theorem mem_callsOf : c ∈ callsOf i past ↔ (i, c) ∈ past := by
  simp only [callsOf, List.mem_filterMap, Prod.exists]
  constructor
  · rintro ⟨j, d, hmem, hsome⟩
    split at hsome
    · rename_i hj
      cases hsome
      exact hj ▸ hmem
    · cases hsome
  · intro hmem
    exact ⟨i, c, hmem, if_pos rfl⟩

theorem callsOf_concat_self : callsOf i (past ++ [(i, c)]) = callsOf i past ++ [c] := by
  simp [callsOf]

theorem callsOf_concat_of_ne (h : j ≠ i) : callsOf i (past ++ [(j, c)]) = callsOf i past := by
  simp [callsOf, h]

end Calls

variable {answer : Answering σ} {party next : Party ι α σ} {i : ι} {made : ι × Call}

theorem turn_eq_none (h : (party.programs i).Ended) : party.turn answer i = none := by
  unfold turn
  cases hi : party.programs i with
  | done | fail => rfl
  | call c k =>
    rw [hi] at h
    exact h.elim

theorem ended_of_turn (h : party.turn answer i = none) : (party.programs i).Ended := by
  unfold turn at h
  cases hi : party.programs i with
  | done | fail => trivial
  | call c k =>
    rw [hi] at h
    cases h

/-- A turn is one call of the program whose turn it is; the others stay where they are. -/
theorem turn_eq_some (h : party.turn answer i = some (made, next)) :
    made.1 = i ∧ ∀ j ≠ i, next.programs j = party.programs j := by
  unfold turn at h
  cases hi : party.programs i with
  | done | fail =>
    rw [hi] at h
    cases h
  | call c k =>
    rw [hi] at h
    cases h
    exact ⟨rfl, fun j hj => party.goOn_of_ne hj _ _⟩

theorem turn_perform {c : Call} {f : Json → Program α} {v : Json}
    (hi : party.programs i = perform c >>= f) (hv : (answer party.state c).1 = .value v) :
    party.turn answer i = some ((i, c), party.goOn i (f v) (answer party.state c).2) := by
  have hcall : party.programs i = .call c fun reply => ofReply reply >>= f := hi
  unfold turn
  rw [hcall]
  dsimp only
  rw [hv]
  rfl

theorem turn_tell {c : Call} {f : Unit → Program α} {v : Json}
    (hi : party.programs i = tell c >>= f) (hv : (answer party.state c).1 = .value v) :
    party.turn answer i = some ((i, c), party.goOn i (f ()) (answer party.state c).2) := by
  have hperform : party.programs i = perform c >>= fun _ => f () := by
    refine hi.trans (congrArg (Program.call c) (funext fun reply => ?_))
    cases reply <;> rfl
  exact turn_perform hperform hv

theorem takeTurns_cons (h : party.turn answer i = some (made, next)) (schedule : List ι) :
    party.takeTurns answer (i :: schedule) =
      (made :: (next.takeTurns answer schedule).1, (next.takeTurns answer schedule).2) := by
  rw [takeTurns, h]

theorem takeTurns_keeps (Inv : List (ι × Call) → Party ι α σ → Prop)
    (step : ∀ past party i made next,
      Inv past party → party.turn answer i = some (made, next) → Inv (past ++ [made]) next)
    (schedule : List ι) (past : List (ι × Call)) (h : Inv past party) :
    Inv (past ++ (party.takeTurns answer schedule).1) (party.takeTurns answer schedule).2 := by
  induction schedule generalizing past party with
  | nil =>
    rwa [takeTurns, List.append_nil]
  | cons i schedule ih =>
    cases hturn : party.turn answer i with
    | none =>
      rw [takeTurns, hturn]
      exact ih past h
    | some made =>
      rw [takeTurns_cons hturn, List.append_cons]
      exact ih _ (step past party i made.1 made.2 h hturn)

theorem ended_takeTurns (h : (party.programs i).Ended) (schedule : List ι) :
    ((party.takeTurns answer schedule).2.programs i).Ended := by
  refine takeTurns_keeps (fun _ party => (party.programs i).Ended) ?_ schedule [] h
  intro past party j made next hended hturn
  have hj : i ≠ j := by
    rintro rfl
    rw [turn_eq_none hended] at hturn
    cases hturn
  rwa [(turn_eq_some hturn).2 i hj]

theorem ended_or_length_callsOf (answer : Answering σ) (i : ι) (schedule : List ι)
    (party : Party ι α σ) :
    ((party.takeTurns answer schedule).2.programs i).Ended ∨
    (callsOf i (party.takeTurns answer schedule).1).length = schedule.count i := by
  induction schedule generalizing party with
  | nil => exact .inr rfl
  | cons j schedule ih =>
    cases hturn : party.turn answer j with
    | none =>
      rw [takeTurns, hturn]
      by_cases hj : j = i
      · exact .inl (ended_takeTurns (ended_of_turn (hj ▸ hturn)) schedule)
      · rw [List.count_cons_of_ne hj]
        exact ih party
    | some outcome =>
      obtain ⟨⟨k, c⟩, next⟩ := outcome
      obtain rfl : k = j := (turn_eq_some hturn).1
      rw [takeTurns_cons hturn]
      refine (ih next).imp_right fun hlength => ?_
      by_cases hk : k = i <;> simp [callsOf, hk, ← hlength]

end Party

end StacCatalog.Program
