import StacCatalog.Proofs.Program.Run

/-!
# What a program can ask for, whatever it is replied
-/

namespace StacCatalog.Program

variable {α β : Type} {P : Call → Prop} {c : Call}

/-- Every call that a program can make is as said. -/
def Sends (P : Call → Prop) : Program α → Prop
  | .done _ | .fail _ => True
  | .call c next => P c ∧ ∀ reply, (next reply).Sends P

namespace Sends

variable {p : Program α} {f : α → Program β}

theorem pure (a : α) : Sends P (Pure.pure a : Program α) := trivial

theorem fail (fault : Fault) : Sends P (.fail fault : Program α) := trivial

theorem bind (hp : Sends P p) (hf : ∀ a, Sends P (f a)) : Sends P (p >>= f) := by
  induction p with
  | done a => exact hf a
  | fail fault => exact trivial
  | call c next ih => exact ⟨hp.1, fun reply => ih reply (hp.2 reply)⟩

theorem liftM_bind {o : Outcome α} (hf : ∀ a, o = .ok a → Sends P (f a)) :
    Sends P ((MonadLiftT.monadLift o : Program α) >>= f) := by
  cases o with
  | ok a => exact hf a rfl
  | error fault => exact trivial

theorem liftM (o : Outcome α) : Sends P (MonadLiftT.monadLift o : Program α) := by
  cases o <;> exact trivial

theorem recover {handle : Fault → Program α} (hp : Sends P p)
    (hh : ∀ fault, Sends P (handle fault)) : Sends P (p.recover handle) := by
  induction p with
  | done a => exact trivial
  | fail fault => exact hh fault
  | call c next ih => exact ⟨hp.1, fun reply => ih reply (hp.2 reply)⟩

theorem orMissing {what : Missing} (hp : Sends P p) : Sends P (p.orMissing what) :=
  hp.recover fun _ => trivial

theorem orRefused (hp : Sends P p) : Sends P p.orRefused := by
  refine hp.recover fun fault => ?_
  cases fault <;> exact trivial

theorem perform (hc : P c) : Sends P (Program.perform c) := by
  refine ⟨hc, fun reply => ?_⟩
  cases reply <;> exact trivial

theorem tell (hc : P c) : Sends P (Program.tell c) :=
  (perform hc).bind fun _ => pure ()

theorem mapM (hf : ∀ a, Sends P (f a)) (as : List α) : Sends P (as.mapM f) := by
  induction as with
  | nil => exact pure []
  | cons a as ih =>
    rw [List.mapM_cons]
    exact (hf a).bind fun _ => ih.bind fun _ => pure _

theorem imp {Q : Call → Prop} (hp : Sends P p) (h : ∀ c, P c → Q c) : Sends Q p := by
  induction p with
  | done a | fail fault => exact trivial
  | call c next ih => exact ⟨h c hp.1, fun reply => ih reply (hp.2 reply)⟩

theorem of_mem_trace {σ : Type} {answer : Answering σ} (hp : Sends P p) (s : σ)
    (hc : c ∈ (p.trace answer s).1.2) : P c := by
  induction p generalizing s with
  | done a | fail fault => cases hc
  | call d next ih =>
    rcases List.mem_cons.mp hc with rfl | hc
    · exact hp.1
    · exact ih _ (hp.2 _) _ hc

theorem run_eq {σ τ : Type} {answer : Answering σ} {view : σ → τ} (hp : Sends P p)
    (hview : ∀ s c, P c → view (answer s c).2 = view s) (s : σ) :
    view (p.run answer s).2 = view s := by
  induction p generalizing s with
  | done a | fail fault => rfl
  | call c next ih => exact (ih _ (hp.2 _) _).trans (hview s c hp.1)

end Sends

end StacCatalog.Program
