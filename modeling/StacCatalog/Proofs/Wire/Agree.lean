import StacCatalog.Proofs.Program.Sends

/-!
# Two clients of one database, side by side
-/

namespace StacCatalog

variable {α β γ δ σ τ : Type}

/-- What a program is run on: the database, and whether the client is to overlook that an index
cannot be created. -/
structure Client (σ : Type) where
  database : σ
  lenient : Bool

/-- A client that has been told nothing. -/
def Client.of (s : σ) : Client σ :=
  ⟨s, false⟩

/-- The database refuses to create an index. -/
def Call.Refused : Call → Reply → Prop
  | .createIndex .., .fault (.badRequest _) => True
  | _, _ => False

/-- Both outcomes are results that are related, or both are the same fault. -/
inductive Outcome.Alike (R : α → β → Prop) : Outcome α → Outcome β → Prop where
  | ok {a : α} {b : β} (h : R a b) : Alike R (.ok a) (.ok b)
  | error (fault : Fault) : Alike R (.error fault) (.error fault)

namespace Outcome.Alike

variable {o : Outcome α} {S : γ → δ → Prop} {f : α → Outcome γ} {g : α → Outcome δ}

theorem bind_self (hf : ∀ a, Alike S (f a) (g a)) : Alike S (o >>= f) (o >>= g) := by
  cases o with
  | ok a => exact hf a
  | error fault => exact .error fault

end Outcome.Alike

namespace Program

section Meets

variable {answer : Answering τ} {P : Call → Reply → Prop} {p : Program α}
  {f : α → Program β}

/-- Along a run some call has a reply as said. -/
def Meets (answer : Answering τ) (P : Call → Reply → Prop) : Program α → τ → Prop
  | .done _, _ | .fail _, _ => False
  | .call c next, s => P c (answer s c).1 ∨ (next (answer s c).1).Meets answer P (answer s c).2

theorem meets_bind {s : τ} : (p >>= f).Meets answer P s ↔
    p.Meets answer P s ∨ ∃ a t, p.run answer s = (.ok a, t) ∧ (f a).Meets answer P t := by
  induction p generalizing s with
  | done a =>
    refine ⟨fun hmet => .inr ⟨a, s, rfl, hmet⟩, ?_⟩
    rintro (hmet | ⟨_, _, ⟨⟩, hmet⟩)
    · exact hmet.elim
    · exact hmet
  | fail fault =>
    refine ⟨False.elim, ?_⟩
    rintro (hmet | ⟨_, _, ⟨⟩, -⟩)
    exact hmet
  | call c next ih =>
    show (P c (answer s c).1 ∨ (next (answer s c).1 >>= f).Meets answer P (answer s c).2) ↔ _
    rw [ih, ← or_assoc]
    rfl

/-- No reply as said is met if none is ever given to a call that the program can make. -/
theorem Sends.not_meets (h : Sends (fun c => ∀ s, ¬ P c (answer s c).1) p) (s : τ) :
    ¬ p.Meets answer P s := by
  induction p generalizing s with
  | done a | fail fault => exact id
  | call c next ih =>
    rintro (hmet | hmet)
    · exact h.1 s hmet
    · exact ih _ (h.2 _) _ hmet

end Meets

/-! ### Agreement -/

/-- Two runs end alike: with results that are related and the same client, or with the same fault
and the same database. -/
inductive EndAlike (R : α → β → Prop) : Outcome α × Client σ → Outcome β × Client σ → Prop where
  | ok {a : α} {b : β} (h : R a b) (s : Client σ) : EndAlike R (.ok a, s) (.ok b, s)
  | error (fault : Fault) {s t : Client σ} (h : s.database = t.database) :
    EndAlike R (.error fault, s) (.error fault, t)

theorem EndAlike.refl (r : Outcome α × Client σ) : EndAlike Eq r r := by
  obtain ⟨o, s⟩ := r
  cases o with
  | ok a => exact .ok rfl s
  | error fault => exact .error fault rfl

variable {left right : Answering (Client σ)} {R : α → β → Prop} {S : γ → δ → Prop}
  {p : Program α} {o : Outcome α} {f : α → Program γ} {g : α → Program δ}

/-- Two programs end alike, unless the second meets a refusal. -/
def Agree (left right : Answering (Client σ)) (R : α → β → Prop) (p : Program α)
    (q : Program β) : Prop :=
  ∀ s, q.Meets right Call.Refused s ∨ EndAlike R (p.run left s) (q.run right s)

namespace Agree

theorem of_run_eq {q : Program α} (h : ∀ s, p.run left s = q.run right s) :
    Agree left right Eq p q := by
  intro s
  rw [h s]
  exact .inr (.refl _)

theorem pure {a : α} {b : β} (h : R a b) : Agree left right R (Pure.pure a) (Pure.pure b) :=
  fun s => .inr (.ok h s)

theorem liftM {o' : Outcome β} (h : Outcome.Alike R o o') :
    Agree left right R (MonadLiftT.monadLift o : Program α)
      (MonadLiftT.monadLift o' : Program β) := by
  intro s
  rw [run_liftM, run_liftM]
  cases h with
  | ok h => exact .inr (.ok h s)
  | error fault => exact .inr (.error fault rfl)

theorem bind {q : Program β} {g : β → Program δ} (hp : Agree left right R p q)
    (hf : ∀ a b, R a b → Agree left right S (f a) (g b)) :
    Agree left right S (p >>= f) (q >>= g) := by
  intro s
  rw [meets_bind]
  rcases hp s with hmet | halike
  · exact .inl (.inl hmet)
  rw [run_bind_eq, run_bind_eq]
  cases hleft : p.run left s with
  | mk o t =>
    cases hright : q.run right s with
    | mk o' t' =>
      rw [hleft, hright] at halike
      cases halike with
      | ok h => exact (hf _ _ h t).imp_left fun hmet => .inr ⟨_, t, rfl, hmet⟩
      | error fault h => exact .inr (.error fault h)

theorem liftM_bind (hf : ∀ a, o = .ok a → Agree left right S (f a) (g a)) :
    Agree left right S ((MonadLiftT.monadLift o : Program α) >>= f)
      ((MonadLiftT.monadLift o : Program α) >>= g) := by
  cases o with
  | ok a => exact hf a rfl
  | error fault => exact fun _ => .inr (.error fault rfl)

theorem of_sends (hp : Sends (fun c => ∀ s, left s c = right s c) p) :
    Agree left right Eq p p := by
  refine of_run_eq fun s => ?_
  induction p generalizing s with
  | done a | fail fault => rfl
  | call c next ih =>
    show (next (left s c).1).run left (left s c).2 = (next (right s c).1).run right (right s c).2
    rw [hp.1 s]
    exact ih _ (hp.2 _) _

theorem ask {c d : Call} (h : ∀ s, left s c = right s d) :
    Agree left right Eq (Program.ask c) (Program.ask d) := by
  refine of_run_eq fun s => ?_
  rw [run_ask, run_ask, h s]

theorem perform {c d : Call} {Post : Json → Prop} (h : ∀ s, left s c = right s d)
    (hpost : ∀ s v, (left s c).1 = .value v → Post v) :
    Agree left right (fun v w => v = w ∧ Post v) (Program.perform c) (Program.perform d) := by
  intro s
  have hleft : (Program.perform c).run left s = (ofReply (left s c).1).run left (left s c).2 := rfl
  have hright : (Program.perform d).run right s =
      (ofReply (left s c).1).run right (left s c).2 := by
    rw [h s]
    rfl
  rw [hleft, hright]
  cases hreply : (left s c).1 with
  | value v => exact .inr (.ok ⟨rfl, hpost s v hreply⟩ _)
  | fault f => exact .inr (.error f rfl)
  | pending => exact .inr (.error _ rfl)

theorem tell {c d : Call} (h : ∀ s, left s c = right s d) :
    Agree left right Eq (Program.tell c) (Program.tell d) := by
  have hperform : Agree left right (fun v w => v = w ∧ True) (Program.perform c)
      (Program.perform d) := perform h fun _ _ _ => trivial
  exact hperform.bind fun _ _ _ => pure rfl

theorem foldlM {ε : Type} {f : α → ε → Program α} {g : β → ε → Program β} {a : α} {b : β}
    (items : List ε) (hab : R a b)
    (hround : ∀ a b item, R a b → Agree left right R (f a item) (g b item)) :
    Agree left right R (items.foldlM f a) (items.foldlM g b) := by
  induction items generalizing a b with
  | nil => exact pure hab
  | cons item items ih => exact (hround a b item hab).bind fun _ _ h => ih h

end Agree

/-- Where the second program meets a refusal, it fails with it; the first goes on to its result as
if nothing had happened. The database is the same. -/
def Splits (left right : Answering (Client σ)) (p q : Program α) : Prop :=
  ∀ s, q.Meets right Call.Refused s → ∃ a cause t u, p.run left s = (.ok a, t) ∧
    q.run right s = (.error (.badRequest cause), u) ∧ t.database = u.database

namespace Splits

variable {q : Program α} {g : α → Program γ}

theorem bind (hp : Agree left right Eq p q)
    (hcalm : Sends (fun c => ∀ s, ¬ c.Refused (right s c).1) q)
    (hf : ∀ a, Splits left right (f a) (g a)) : Splits left right (p >>= f) (q >>= g) := by
  intro s hmet
  obtain hmet | ⟨a, t, hright, hmet⟩ := meets_bind.mp hmet
  · exact absurd hmet (hcalm.not_meets s)
  have halike := (hp s).resolve_left (hcalm.not_meets s)
  rw [hright] at halike
  cases hleft : p.run left s with
  | mk o u =>
    rw [hleft] at halike
    cases halike with
    | ok h =>
      subst h
      obtain ⟨b, cause, v, w, hf, hg, hsame⟩ := hf _ t hmet
      exact ⟨b, cause, v, w, (run_bind_ok hleft).trans hf, (run_bind_ok hright).trans hg, hsame⟩

theorem liftM_bind (hf : ∀ a, Splits left right (f a) (g a)) :
    Splits left right ((MonadLiftT.monadLift o : Program α) >>= f)
      ((MonadLiftT.monadLift o : Program α) >>= g) := by
  cases o with
  | ok a => exact hf a
  | error fault => exact fun _ hmet => hmet.elim

end Splits

end Program

end StacCatalog
