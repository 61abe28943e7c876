import StacCatalog.Database.Context

/-!
# Running the pieces that programs are put together from
-/

namespace StacCatalog.Program

variable {α β σ : Type} {answer : Answering σ} {s t : σ} {what : Missing}
    {c : Call} {fault : Fault}
  {p : Program α} {f : α → Program β} {a : α} {o : Outcome α}

/-! ### Chains -/

theorem bind_assoc {γ : Type} (p : Program α) (f : α → Program β) (g : β → Program γ) :
    p >>= f >>= g = p >>= fun a => f a >>= g := by
  induction p with
  | done a | fail fault => rfl
  | call c next ih => exact congrArg (Program.call c) (funext ih)

theorem pure_bind (a : α) (f : α → Program β) : (pure a : Program α) >>= f = f a := rfl

theorem id_map (p : Program α) : id <$> p = p := by
  induction p with
  | done a | fail fault => rfl
  | call c next ih => exact congrArg (Program.call c) (funext ih)

instance : LawfulMonad Program :=
  .mk' Program id_map pure_bind bind_assoc

theorem liftM_ok_bind (a : α) (f : α → Program β) :
    (liftM (.ok a : Outcome α) : Program α) >>= f = f a := rfl

/-! ### Runs -/

@[simp] theorem run_pure (a) : (pure a : Program α).run answer s = (.ok a, s) := rfl

@[simp] theorem run_liftM (o) : (liftM o : Program α).run answer s = (o, s) := by
  cases o <;> rfl

@[simp] theorem run_ask (c) : (ask c).run answer s = (.ok (answer s c).1, (answer s c).2) := rfl

@[simp] theorem run_ofReply_value (v : Json) : (ofReply (.value v)).run answer s = (.ok v, s) := rfl

/-- Running a chain runs its first link, and the rest on the result and the state of that. -/
theorem run_bind_eq (p : Program α) (f : α → Program β) (s : σ) :
    (p >>= f).run answer s = match p.run answer s with
      | (.ok a, s) => (f a).run answer s
      | (.error fault, s) => (.error fault, s) :=
  run_bind answer p f s

theorem run_bind_ok (h : p.run answer s = (.ok a, t)) :
    (p >>= f).run answer s = (f a).run answer t := by
  rw [run_bind_eq, h]

theorem run_bind_eq_ok {b : β} :
    (p >>= f).run answer s = (.ok b, t) ↔
      ∃ a u, p.run answer s = (.ok a, u) ∧ (f a).run answer u = (.ok b, t) := by
  rw [run_bind_eq]
  constructor
  · intro h
    cases hrun : p.run answer s with
    | mk outcome u =>
      rw [hrun] at h
      cases outcome with
      | ok a => exact ⟨a, u, rfl, h⟩
      | error fault => cases h
  · rintro ⟨a, u, hrun, h⟩
    rwa [hrun]

theorem run_liftM_eq_ok : (liftM o : Program α).run answer s = (.ok a, t) ↔ o = .ok a ∧ s = t := by
  rw [run_liftM, Prod.mk.injEq]

theorem run_liftM_bind_eq_ok {b : β} : ((liftM o : Program α) >>= f).run answer s = (.ok b, t) ↔
      ∃ a, o = .ok a ∧ (f a).run answer s = (.ok b, t) := by
  rw [run_bind_eq, run_liftM]
  cases o with
  | ok a => simp
  | error fault => simp

/-- A handler that always fails has no part in a result. -/
theorem run_recover_eq_ok {handle : Fault → Program α}
    (hfail : ∀ fault, ∃ fault', handle fault = .fail fault') :
    (p.recover handle).run answer s = (.ok a, t) ↔ p.run answer s = (.ok a, t) := by
  rw [run_recover]
  cases p.run answer s with
  | mk outcome u =>
    cases outcome with
    | ok b => rfl
    | error fault =>
      obtain ⟨fault', hfault'⟩ := hfail fault
      simp [hfault', run]

theorem run_orMissing_eq_ok :
    (p.orMissing what).run answer s = (.ok a, t) ↔ p.run answer s = (.ok a, t) :=
  run_recover_eq_ok fun _ => ⟨_, rfl⟩

theorem run_orRefused_eq_ok :
    p.orRefused.run answer s = (.ok a, t) ↔ p.run answer s = (.ok a, t) := by
  refine run_recover_eq_ok fun fault => ?_
  cases fault <;> exact ⟨_, rfl⟩

theorem run_perform_eq_ok {v : Json} :
    (perform c).run answer s = (.ok v, t) ↔ (answer s c).1 = .value v ∧ (answer s c).2 = t := by
  have hrun : (perform c).run answer s = (ofReply (answer s c).1).run answer (answer s c).2 := rfl
  rw [hrun]
  cases (answer s c).1 <;> simp [ofReply, run]

theorem run_tell_eq_ok {u : Unit} :
    (tell c).run answer s = (.ok u, t) ↔ ∃ v, (answer s c).1 = .value v ∧ (answer s c).2 = t := by
  have htell : tell c = perform c >>= fun _ => pure () := rfl
  rw [htell, run_bind_eq_ok]
  simp [run_perform_eq_ok]

/-! ### Runs that fail -/

theorem run_bind_eq_error :
    (p >>= f).run answer s = (.error fault, t) ↔
      p.run answer s = (.error fault, t) ∨
      ∃ a u, p.run answer s = (.ok a, u) ∧ (f a).run answer u = (.error fault, t) := by
  rw [run_bind_eq]
  cases p.run answer s with
  | mk outcome u =>
    cases outcome with
    | ok a =>
      constructor
      · exact fun h => .inr ⟨a, u, rfl, h⟩
      · rintro (h | ⟨a, u, h, hrest⟩)
        · cases h
        · cases h
          exact hrest
    | error fault' => simp

/-- However a chain ends, its first link failed, or the rest of it ended so. -/
theorem run_bind_cases {o : Outcome β} (h : (p >>= f).run answer s = (o, t)) :
    (∃ fault, o = .error fault ∧ p.run answer s = (.error fault, t)) ∨
      ∃ a u, p.run answer s = (.ok a, u) ∧ (f a).run answer u = (o, t) := by
  cases o with
  | ok b => exact .inr (run_bind_eq_ok.mp h)
  | error fault => exact (run_bind_eq_error.mp h).imp (fun hp => ⟨fault, rfl, hp⟩) id

theorem run_liftM_bind_eq_error : ((liftM o : Program α) >>= f).run answer s = (.error fault, t) ↔
      o = .error fault ∧ s = t ∨ ∃ a, o = .ok a ∧ (f a).run answer s = (.error fault, t) := by
  rw [run_bind_eq, run_liftM]
  cases o <;> simp

/-- A call that fails: the database reports a fault, or does not reply. -/
theorem run_perform_eq_error :
    (perform c).run answer s = (.error fault, t) ↔
      ((answer s c).1 = .fault fault ∨ (answer s c).1 = .pending ∧ fault = .unset "reply") ∧
      (answer s c).2 = t := by
  have hrun : (perform c).run answer s = (ofReply (answer s c).1).run answer (answer s c).2 := rfl
  rw [hrun]
  cases (answer s c).1 <;> simp [ofReply, run, eq_comm]

theorem run_tell_eq_error :
    (tell c).run answer s = (.error fault, t) ↔
      ((answer s c).1 = .fault fault ∨ (answer s c).1 = .pending ∧ fault = .unset "reply") ∧
      (answer s c).2 = t := by
  have htell : tell c = perform c >>= fun _ => pure () := rfl
  rw [htell, run_bind_eq_error, run_perform_eq_error]
  simp

theorem run_recover_eq_error {handle : Fault → Program α}
    (h : (p.recover handle).run answer s = (.error fault, t)) :
    ∃ cause u,
      p.run answer s = (.error cause, u) ∧ (handle cause).run answer u = (.error fault, t) := by
  rw [run_recover] at h
  cases hrun : p.run answer s with
  | mk outcome u =>
    rw [hrun] at h
    cases outcome with
    | ok a => cases h
    | error cause => exact ⟨cause, u, rfl, h⟩

/-- A handler that always fails turns one fault into another. -/
theorem run_orMissing_eq_error (h : (p.orMissing what).run answer s = (.error fault, t)) :
    ∃ cause, p.run answer s = (.error cause, t) ∧
      fault = if cause = .absent then .notFound what else cause := by
  obtain ⟨cause, u, hrun, ⟨⟩⟩ := run_recover_eq_error h
  exact ⟨cause, hrun, rfl⟩

theorem run_orRefused_eq_error (h : p.orRefused.run answer s = (.error fault, t)) :
    ∃ cause, p.run answer s = (.error cause, t) ∧
      (fault = cause ∨ ∃ detail, fault = .refused 400 detail []) := by
  obtain ⟨cause, u, hrun, h⟩ := run_recover_eq_error h
  refine ⟨cause, ?_⟩
  cases cause with
  | badRequest detail =>
    cases h
    exact ⟨hrun, .inr ⟨detail, rfl⟩⟩
  | _ =>
    cases h
    exact ⟨hrun, .inl rfl⟩

end StacCatalog.Program
