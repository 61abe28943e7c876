import StacCatalog.Proofs.Program.Sends

/-!
# Which calls a run makes
-/

namespace StacCatalog.Program

open List

variable {α β σ : Type} {answer : Answering σ}

theorem trace_call (c : Call) (next : Reply → Program α) (s : σ) :
    (Program.call c next).trace answer s =
      ((((next (answer s c).1).trace answer (answer s c).2).1.1, c ::
      ((next (answer s c).1).trace answer (answer s c).2).1.2),
        ((next (answer s c).1).trace answer (answer s c).2).2) := rfl

/-- The calls of a chain are the calls of its first link, and then those of the rest if there is a
result to go on with. -/
theorem trace_bind (p : Program α) (f : α → Program β) (s : σ) :
    (p >>= f).trace answer s = match p.trace answer s with
      | ((.ok a, calls), t) =>
        ((((f a).trace answer t).1.1, calls ++ ((f a).trace answer t).1.2),
          ((f a).trace answer t).2)
      | ((.error fault, calls), t) => ((.error fault, calls), t) := by
  induction p generalizing s with
  | done a | fail fault => rfl
  | call c next ih =>
    show (Program.call c fun reply => next reply >>= f).trace answer s = _
    rw [trace_call, trace_call, ih]
    rcases (next (answer s c).1).trace answer (answer s c).2 with ⟨⟨outcome, calls⟩, t⟩
    cases outcome <;> rfl

theorem trace_recover (p : Program α) (handle : Fault → Program α) (s : σ) :
    (p.recover handle).trace answer s =
      match p.trace answer s with
      | ((.ok a, calls), t) => ((.ok a, calls), t)
      | ((.error fault, calls), t) =>
        ((((handle fault).trace answer t).1.1, calls ++ ((handle fault).trace answer t).1.2),
          ((handle fault).trace answer t).2) := by
  induction p generalizing s with
  | done a | fail fault => rfl
  | call c next ih =>
    show (Program.call c fun reply => (next reply).recover handle).trace answer s = _
    rw [trace_call, trace_call, ih]
    rcases (next (answer s c).1).trace answer (answer s c).2 with ⟨⟨outcome, calls⟩, t⟩
    cases outcome <;> rfl

/-! ### Runs with their calls -/

/-- A run from a state: its outcome, its calls in order, and the state afterwards. -/
def Traces (answer : Answering σ) (p : Program α) (s : σ) (o : Outcome α)
    (calls : List Call) (t : σ) : Prop :=
  p.trace answer s = ((o, calls), t)

namespace Traces

variable {s t u : σ} {p : Program α} {f : α → Program β} {a : α} {o : Outcome β}
    {calls more : List Call}
  {fault : Fault} {c : Call} {handle : Fault → Program α} {x : Outcome α}

theorem pure (a : α) : Traces answer (pure a) s (.ok a) [] s := rfl

theorem fail (fault : Fault) : Traces answer (.fail fault : Program α) s (.error fault) [] s := rfl

theorem liftM (x : Outcome α) : Traces answer (MonadLiftT.monadLift x : Program α) s x [] s := by
  cases x <;> rfl

theorem bind (hp : Traces answer p s (.ok a) calls u) (hf : Traces answer (f a) u o more t) :
    Traces answer (p >>= f) s o (calls ++ more) t := by
  unfold Traces at hp hf ⊢
  rw [trace_bind, hp]
  simp only [hf]

theorem bind_error (hp : Traces answer p s (.error fault) calls t) :
    Traces answer (p >>= f) s (.error fault) calls t := by
  unfold Traces at hp ⊢
  rw [trace_bind, hp]

theorem recover (hp : Traces answer p s (.ok a) calls t) :
    Traces answer (p.recover handle) s (.ok a) calls t := by
  unfold Traces at hp ⊢
  rw [trace_recover, hp]

theorem recover_error (hp : Traces answer p s (.error fault) calls u)
    (hh : Traces answer (handle fault) u x more t) :
    Traces answer (p.recover handle) s x (calls ++ more) t := by
  unfold Traces at hp hh ⊢
  rw [trace_recover, hp]
  simp only [hh]

theorem ask_bind {f : Reply → Program β}
    (hf : Traces answer (f (answer s c).1) (answer s c).2 o calls t) :
    Traces answer (ask c >>= f) s o (c :: calls) t := by
  have hask : Traces answer (ask c) s (.ok (answer s c).1) [c] (answer s c).2 := rfl
  exact hask.bind hf

theorem perform {v : Json} (hv : (answer s c).1 = .value v) :
    Traces answer (perform c) s (.ok v) [c] (answer s c).2 := by
  show (Program.call c ofReply).trace answer s = _
  rw [trace_call, hv]
  rfl

theorem of_sends_nothing (h : Sends (fun _ => False) p) (s : σ) :
    ∃ o, Traces answer p s o [] s := by
  cases p with
  | done a => exact ⟨_, .pure a⟩
  | fail fault => exact ⟨_, .fail fault⟩
  | call c next => exact h.1.elim

/-- Nothing more is asked after a run, whatever it ends with. -/
theorem bind_sends_nothing (hp : Traces answer p s x calls t)
    (hf : ∀ a, Sends (fun _ => False) (f a)) : ∃ o, Traces answer (p >>= f) s o calls t := by
  cases x with
  | error fault => exact ⟨_, hp.bind_error⟩
  | ok a =>
    obtain ⟨o, ho⟩ := of_sends_nothing (hf a) t
    exact ⟨o, by simpa using hp.bind ho⟩

/-- Nothing more is asked after a run, also if it is recovered from. -/
theorem recover_sends_nothing (hp : Traces answer p s x calls t)
    (hh : ∀ fault, Sends (fun _ => False) (handle fault)) :
    ∃ o, Traces answer (p.recover handle) s o calls t := by
  cases x with
  | ok a => exact ⟨_, hp.recover⟩
  | error fault =>
    obtain ⟨o, ho⟩ := of_sends_nothing (hh fault) t
    exact ⟨o, by simpa using hp.recover_error ho⟩

theorem unique {o o' : Outcome α} {calls' : List Call} (h : Traces answer p s o calls t)
    (h' : Traces answer p s o' calls' u) : o = o' ∧ calls = calls' ∧ t = u := by
  have heq := h.symm.trans h'
  simp only [Prod.mk.injEq] at heq
  exact ⟨heq.1.1, heq.1.2, heq.2⟩

end Traces

/-! ### Runs that only ask -/

/-- A run that ends as said, makes only calls as said, and leaves the database as it was. -/
def Asks (answer : Answering σ) (P : Call → Prop) (p : Program α) (s : σ) (o : Outcome α) :
    Prop :=
  ∃ calls, Traces answer p s o calls s ∧ ∀ c ∈ calls, P c

namespace Asks

variable {P : Call → Prop} {s : σ} {p : Program α} {f : α → Program β} {a : α} {fault : Fault}
    {o : Outcome α}
  {handle : Fault → Program α}

theorem run_eq (h : Asks answer P p s o) : p.run answer s = (o, s) := by
  obtain ⟨calls, htraces, -⟩ := h
  rw [← trace_eq_run, htraces]

theorem fail (fault : Fault) : Asks answer P (.fail fault : Program α) s (.error fault) :=
  ⟨[], .fail fault, nofun⟩

theorem liftM (o : Outcome α) : Asks answer P (MonadLiftT.monadLift o : Program α) s o :=
  ⟨[], .liftM o, nofun⟩

theorem bind {g : α → Outcome β} (hp : Asks answer P p s o)
    (hf : ∀ a, o = .ok a → Asks answer P (f a) s (g a)) : Asks answer P (p >>= f) s (o >>= g) := by
  obtain ⟨calls, htraces, hcalls⟩ := hp
  cases o with
  | error fault => exact ⟨calls, htraces.bind_error, hcalls⟩
  | ok a =>
    obtain ⟨more, hmore, hquestions⟩ := hf a rfl
    exact ⟨calls ++ more, htraces.bind hmore, forall_mem_append.mpr ⟨hcalls, hquestions⟩⟩

theorem bind_ok {o : Outcome β} (hp : Asks answer P p s (.ok a)) (hf : Asks answer P (f a) s o) :
    Asks answer P (p >>= f) s o := by
  refine hp.bind (g := fun _ => o) ?_
  rintro _ ⟨⟩
  exact hf

theorem bind_error (hp : Asks answer P p s (.error fault)) :
    Asks answer P (p >>= f) s (.error fault) :=
  hp.bind (g := fun _ => .error fault) nofun

theorem liftM_bind {x : Outcome α} {o : Outcome β} (hx : x = .ok a) (hf : Asks answer P (f a) s o) :
    Asks answer P ((MonadLiftT.monadLift x : Program α) >>= f) s o := by
  rwa [hx]

theorem recover (hp : Asks answer P p s (.ok a)) : Asks answer P (p.recover handle) s (.ok a) :=
  let ⟨calls, htraces, hcalls⟩ := hp
  ⟨calls, htraces.recover, hcalls⟩

theorem recover_error (hp : Asks answer P p s (.error fault))
    (hh : Asks answer P (handle fault) s o) : Asks answer P (p.recover handle) s o := by
  obtain ⟨calls, htraces, hcalls⟩ := hp
  obtain ⟨more, hmore, hquestions⟩ := hh
  exact ⟨calls ++ more, htraces.recover_error hmore, forall_mem_append.mpr ⟨hcalls, hquestions⟩⟩

theorem perform {c : Call} {v : Json} (hc : P c) (hv : answer s c = (.value v, s)) :
    Asks answer P (Program.perform c) s (.ok v) := by
  refine ⟨[c], ?_, by simpa using hc⟩
  have hperform := Traces.perform (congrArg Prod.fst hv)
  rwa [hv] at hperform

/-- A program that makes only calls that change nothing asks, and its outcome is that of its run. -/
theorem of_sends (hp : Sends P p) (hanswer : ∀ s c, P c → (answer s c).2 = s) (s : σ) :
    Asks answer P p s (p.run answer s).1 := by
  induction p with
  | done a | fail fault => exact ⟨[], rfl, nofun⟩
  | call c next ih =>
    have hs := hanswer s c hp.1
    obtain ⟨calls, htraces, hcalls⟩ := ih (answer s c).1 (hp.2 _)
    unfold Traces at htraces
    refine ⟨c :: calls, ?_, forall_mem_cons.mpr ⟨hp.1, hcalls⟩⟩
    show (Program.call c next).trace answer s =
      ((((next (answer s c).1).run answer (answer s c).2).1, c :: calls), s)
    rw [trace_call, hs, htraces]

end Asks

/-- A run that only asks, and ends with a result as said or with a fault as said. -/
def Settles (answer : Answering σ) (P : Call → Prop) (p : Program α) (s : σ) (Q : α → Prop)
    (R : Fault → Prop) : Prop :=
  (∃ a, Asks answer P p s (.ok a) ∧ Q a) ∨ ∃ fault, Asks answer P p s (.error fault) ∧ R fault

namespace Settles

variable {P : Call → Prop} {s : σ} {p : Program α} {f : α → Program β} {a : α} {Q : α → Prop}
    {Q' : β → Prop}
  {R R' : Fault → Prop}

theorem pure (h : Q a) : Settles answer P (pure a) s Q R :=
  .inl ⟨a, .liftM (.ok a), h⟩

theorem fail {fault : Fault} (h : R fault) : Settles answer P (.fail fault : Program α) s Q R :=
  .inr ⟨fault, .fail _, h⟩

theorem liftM {o : Outcome α} (hok : ∀ a, o = .ok a → Q a)
    (herror : ∀ fault, o = .error fault → R fault) :
    Settles answer P (MonadLiftT.monadLift o : Program α) s Q R := by
  cases o with
  | ok a => exact .pure (hok a rfl)
  | error fault => exact .fail (herror fault rfl)

theorem bind (hp : Settles answer P p s Q R) (hf : ∀ a, Q a → Settles answer P (f a) s Q' R) :
    Settles answer P (p >>= f) s Q' R := by
  rcases hp with ⟨a, hp, ha⟩ | ⟨fault, hp, hfault⟩
  · rcases hf a ha with ⟨b, hb, hQ⟩ | ⟨fault, hfault, hR⟩
    · exact .inl ⟨b, hp.bind_ok hb, hQ⟩
    · exact .inr ⟨fault, hp.bind_ok hfault, hR⟩
  · exact .inr ⟨fault, hp.bind_error, hfault⟩

theorem imp (h : Settles answer P p s Q R) (hR : ∀ fault, R fault → R' fault) :
    Settles answer P p s Q R' := by
  rcases h with h | ⟨fault, hfault, hwhy⟩
  · exact .inl h
  · exact .inr ⟨fault, hfault, hR fault hwhy⟩

theorem recover {tell : Fault → Fault} (hp : Settles answer P p s Q R)
    (htell : ∀ fault, R fault → R' (tell fault)) :
    Settles answer P (p.recover fun fault => .fail (tell fault)) s Q R' := by
  rcases hp with ⟨a, hp, ha⟩ | ⟨fault, hp, hfault⟩
  · exact .inl ⟨a, hp.recover, ha⟩
  · exact .inr ⟨_, hp.recover_error (.fail _), htell fault hfault⟩

theorem perform {c : Call} {Q : Json → Prop} (hanswer : ∀ s c, P c → (answer s c).2 = s) (hc : P c)
    (hvalue : ∀ v, (answer s c).1 = .value v → Q v)
    (hother : ∀ fault, (∀ v, (answer s c).1 ≠ .value v) → R fault) :
    Settles answer P (Program.perform c) s Q R := by
  have hasks :
      Asks answer P (Program.perform c) s ((ofReply (answer s c).1).run answer (answer s c).2).1 :=
    .of_sends (.perform hc) hanswer s
  cases hreply : (answer s c).1 with
  | value v =>
    rw [hreply] at hasks
    exact .inl ⟨v, hasks, hvalue v hreply⟩
  | _ =>
    rw [hreply] at hasks
    refine .inr ⟨_, hasks, hother _ fun v hv => ?_⟩
    cases hreply.symm.trans hv

theorem of_run (h : Settles answer P p s Q R) {t : σ} (hrun : p.run answer s = (.ok a, t)) :
    t = s ∧ Q a := by
  rcases h with ⟨a, hasks, ha⟩ | ⟨fault, hasks, -⟩
  · cases hasks.run_eq.symm.trans hrun
    exact ⟨rfl, ha⟩
  · cases hasks.run_eq.symm.trans hrun

end Settles

/-! ### The last calls of a run -/

/-- A run that makes only calls as said, and then the given ones. -/
def EndsWith (answer : Answering σ) (P : Call → Prop) (p : Program α) (s : σ)
    (last : List Call) : Prop :=
  ∃ o asked t, Traces answer p s o (asked ++ last) t ∧ ∀ c ∈ asked, P c

namespace EndsWith

variable {P : Call → Prop} {s : σ} {p : Program α} {f : α → Program β} {a : α} {last : List Call}

theorem of_asks_bind (hp : Asks answer P p s (.ok a)) (hf : EndsWith answer P (f a) s last) :
    EndsWith answer P (p >>= f) s last := by
  obtain ⟨calls, htraces, hcalls⟩ := hp
  obtain ⟨o, asked, t, hrest, hasked⟩ := hf
  refine ⟨o, calls ++ asked, t, ?_, forall_mem_append.mpr ⟨hcalls, hasked⟩⟩
  rw [append_assoc]
  exact htraces.bind hrest

theorem liftM_bind {x : Outcome α} (hx : x = .ok a) (hf : EndsWith answer P (f a) s last) :
    EndsWith answer P ((MonadLiftT.monadLift x : Program α) >>= f) s last := by
  rwa [hx]

theorem bind (hp : EndsWith answer P p s last) (hf : ∀ a, Sends (fun _ => False) (f a)) :
    EndsWith answer P (p >>= f) s last := by
  obtain ⟨x, asked, t, htraces, hasked⟩ := hp
  obtain ⟨o, ho⟩ := htraces.bind_sends_nothing hf
  exact ⟨o, asked, t, ho, hasked⟩

theorem recover {handle : Fault → Program α} (hp : EndsWith answer P p s last)
    (hh : ∀ fault, Sends (fun _ => False) (handle fault)) :
    EndsWith answer P (p.recover handle) s last := by
  obtain ⟨x, asked, t, htraces, hasked⟩ := hp
  obtain ⟨o, ho⟩ := htraces.recover_sends_nothing hh
  exact ⟨o, asked, t, ho, hasked⟩

theorem of_asks {o : Outcome α} (h : EndsWith answer P p s last) (hasks : Asks answer P p s o) :
    ∀ c ∈ last, P c := by
  obtain ⟨x, asked, t, htraces, -⟩ := h
  obtain ⟨calls, hcalls, hall⟩ := hasks
  obtain ⟨-, rfl, -⟩ := htraces.unique hcalls
  exact fun c hc => hall c (mem_append_right _ hc)

theorem unique {c d : Call} (h : EndsWith answer P p s [c]) (h' : EndsWith answer P p s [d]) :
    c = d := by
  obtain ⟨o, asked, t, htraces, -⟩ := h
  obtain ⟨o', asked', t', htraces', -⟩ := h'
  obtain ⟨-, hcalls, -⟩ := htraces.unique htraces'
  exact singleton_inj.mp (append_inj' hcalls rfl).2

theorem of_sends_nothing (h : Sends (fun _ => False) p) (s : σ) : EndsWith answer P p s [] := by
  obtain ⟨o, ho⟩ := Traces.of_sends_nothing h s
  exact ⟨o, [], s, ho, nofun⟩

theorem ask_bind {f : Reply → Program β} {c : Call}
    (hf : EndsWith answer (fun _ => False) (f (answer s c).1) (answer s c).2 last) :
    EndsWith answer P (ask c >>= f) s (c :: last) := by
  obtain ⟨o, asked, t, htraces, hnone⟩ := hf
  obtain rfl : asked = [] := eq_nil_iff_forall_not_mem.mpr hnone
  exact ⟨o, [], t, .ask_bind htraces, nofun⟩

theorem perform (c : Call) (s : σ) : EndsWith answer P (Program.perform c) s [c] := by
  refine .ask_bind (.of_sends_nothing ?_ _)
  cases (answer s c).1 <;> exact trivial

end EndsWith

end StacCatalog.Program
