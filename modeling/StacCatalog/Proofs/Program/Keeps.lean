import StacCatalog.Proofs.Program.Run

/-!
# Invariants of programs, shown piece by piece
-/

namespace StacCatalog.Program

variable {α β σ : Type} {answer : Answering σ} {Inv : σ → Prop} {Mid Post : α → Prop}

/-- From a state with the invariant a program leads to a state with the invariant, and its result,
if there is one, is as said. -/
def Keeps (answer : Answering σ) (Inv : σ → Prop) (p : Program α) (Post : α → Prop) :
    Prop :=
  ∀ s, Inv s → Inv (p.run answer s).2 ∧ ∀ a, (p.run answer s).1 = .ok a → Post a

namespace Keeps

variable {p : Program α} {o : Outcome α} {f : α → Program β}

theorem of_run {s t : σ} {a : α} (h : Keeps answer Inv p Post) (hs : Inv s)
    (hrun : p.run answer s = (.ok a, t)) : Inv t ∧ Post a := by
  obtain ⟨hinv, hpost⟩ := h s hs
  rw [hrun] at hinv hpost
  exact ⟨hinv, hpost a rfl⟩

theorem pure {a : α} (h : Post a) : Keeps answer Inv (Pure.pure a) Post := by
  intro s hs
  refine ⟨hs, ?_⟩
  rintro _ ⟨⟩
  exact h

theorem fail (fault : Fault) : Keeps answer Inv (.fail fault : Program α) Post :=
  fun _ hs => ⟨hs, nofun⟩

theorem liftM (h : ∀ a, o = .ok a → Post a) :
    Keeps answer Inv (MonadLiftT.monadLift o : Program α) Post := by
  intro s hs
  cases o with
  | ok a => exact ⟨hs, fun _ ha => h _ ha⟩
  | error fault => exact ⟨hs, nofun⟩

theorem bind {Post : β → Prop} (hp : Keeps answer Inv p Mid)
    (hf : ∀ a, Mid a → Keeps answer Inv (f a) Post) : Keeps answer Inv (p >>= f) Post := by
  intro s hs
  obtain ⟨hinv, hmid⟩ := hp s hs
  rw [run_bind_eq]
  cases hrun : p.run answer s with
  | mk outcome t =>
    rw [hrun] at hinv hmid
    cases outcome with
    | ok a => exact hf a (hmid a rfl) t hinv
    | error fault => exact ⟨hinv, nofun⟩

theorem liftM_bind {Post : β → Prop} (hf : ∀ a, o = .ok a → Keeps answer Inv (f a) Post) :
    Keeps answer Inv ((MonadLiftT.monadLift o : Program α) >>= f) Post :=
  bind (liftM fun _ h => h) hf

theorem forM {as : List α} {f : α → Program PUnit}
    (h : ∀ a ∈ as, Keeps answer Inv (f a) fun _ => True) :
    Keeps answer Inv (as.forM f) fun _ => True := by
  induction as with
  | nil => exact pure trivial
  | cons a as ih =>
    exact bind (h a List.mem_cons_self) fun _ _ => ih fun a ha => h a (List.mem_cons_of_mem _ ha)

theorem recover {handle : Fault → Program α} (hp : Keeps answer Inv p Post)
    (hh : ∀ fault, Keeps answer Inv (handle fault) Post) :
    Keeps answer Inv (p.recover handle) Post := by
  intro s hs
  obtain ⟨hinv, hpost⟩ := hp s hs
  rw [run_recover]
  cases hrun : p.run answer s with
  | mk outcome t =>
    rw [hrun] at hinv hpost
    cases outcome with
    | ok a => exact ⟨hinv, hpost⟩
    | error fault => exact hh fault t hinv

theorem orMissing {what : Missing} (hp : Keeps answer Inv p Post) :
    Keeps answer Inv (p.orMissing what) Post :=
  hp.recover fun _ => fail _

theorem orRefused (hp : Keeps answer Inv p Post) : Keeps answer Inv p.orRefused Post := by
  refine hp.recover fun fault => ?_
  cases fault <;> exact fail _

theorem perform {c : Call} {Post : Json → Prop} (hinv : ∀ s, Inv s → Inv (answer s c).2)
    (hvalue : ∀ s v, Inv s → (answer s c).1 = .value v → Post v) :
    Keeps answer Inv (Program.perform c) Post := by
  intro s hs
  have hrun : (Program.perform c).run answer s =
      (ofReply (answer s c).1).run answer (answer s c).2 := rfl
  rw [hrun]
  cases hreply : (answer s c).1 with
  | value v =>
    refine ⟨hinv s hs, ?_⟩
    rintro _ ⟨⟩
    exact hvalue s v hs hreply
  | fault f | pending => exact ⟨hinv s hs, nofun⟩

theorem tell {c : Call} (hinv : ∀ s, Inv s → Inv (answer s c).2) :
    Keeps answer Inv (Program.tell c) fun _ => True := by
  have hperform : Keeps answer Inv (Program.perform c) fun _ => True :=
      perform hinv fun _ _ _ _ => trivial
  exact hperform.bind fun _ _ => pure trivial

end Keeps

end StacCatalog.Program
