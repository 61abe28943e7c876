import StacCatalog.Database.Call

/-!
# Programs that talk to a database
-/

namespace StacCatalog

/-- What a database replies. -/
inductive Reply where
  | value (v : Json)
  | fault (f : Fault)
  /-- There is no reply yet, and the program does not wait for one. -/
  | pending
  deriving Repr

/-- How a database answers a call from its state. -/
abbrev Answering (σ : Type) := σ → Call → Reply × σ

/-- A program that talks to a database. -/
inductive Program (α : Type) where
  | done (result : α)
  | fail (fault : Fault)
  | call (c : Call) (next : Reply → Program α)

namespace Program

variable {α β : Type}

/-- Goes on with the result of a program. -/
def bind (p : Program α) (f : α → Program β) : Program β :=
  match p with
  | .done a => f a
  | .fail fault => .fail fault
  | .call c next => .call c fun reply => (next reply).bind f

/-- Goes on with the fault of a program. -/
def recover (p : Program α) (handle : Fault → Program α) : Program α :=
  match p with
  | .done a => .done a
  | .fail fault => handle fault
  | .call c next => .call c fun reply => (next reply).recover handle

instance : Monad Program where
  pure := .done
  bind := bind

/-- A program that makes no calls. -/
def ofOutcome : Outcome α → Program α
  | .ok a => .done a
  | .error fault => .fail fault

instance : MonadLift (Except Fault) Program where
  monadLift := ofOutcome

/-- Makes a call; the reply may be a fault, or may still be out. -/
def ask (c : Call) : Program Reply :=
  .call c .done

/-- The value of a reply that is there. -/
def ofReply : Reply → Program Json
  | .value v => .done v
  | .fault f => .fail f
  | .pending => .fail (.unset "reply")

/-- Makes a call and waits for its value. -/
def perform (c : Call) : Program Json :=
  .call c ofReply

/-- Makes a call, whatever its value is. -/
def tell (c : Call) : Program Unit :=
  .call c fun reply => (ofReply reply).bind fun _ => .done ()

/-- Runs a program on a database that answers from its state. -/
def run {σ : Type} (answer : Answering σ) (p : Program α) (s : σ) : Outcome α × σ :=
  match p with
  | .done a => (.ok a, s)
  | .fail fault => (.error fault, s)
  | .call c next =>
    let (reply, s) := answer s c
    (next reply).run answer s

/-- Runs a program and writes down its calls, in order. -/
def trace {σ : Type} (answer : Answering σ) (p : Program α) (s : σ) :
    (Outcome α × List Call) × σ :=
  match p with
  | .done a => ((.ok a, []), s)
  | .fail fault => ((.error fault, []), s)
  | .call c next =>
    let (reply, s) := answer s c
    let ((result, calls), s) := (next reply).trace answer s
    ((result, c :: calls), s)

/-- Running two programs in a row runs the second on the result and the state of the first. -/
theorem run_bind {σ : Type} (answer : Answering σ) (p : Program α)
    (f : α → Program β) (s : σ) :
    (p.bind f).run answer s =
      match p.run answer s with
      | (.ok a, s) => (f a).run answer s
      | (.error fault, s) => (.error fault, s) := by
  induction p generalizing s with
  | done a | fail fault => rfl
  | call c next ih => exact ih _ _

/-- A program that recovers runs its handler on the state at which it failed. -/
theorem run_recover {σ : Type} (answer : Answering σ) (p : Program α)
    (handle : Fault → Program α) (s : σ) :
    (p.recover handle).run answer s =
      match p.run answer s with
      | (.ok a, s) => (.ok a, s)
      | (.error fault, s) => (handle fault).run answer s := by
  induction p generalizing s with
  | done a | fail fault => rfl
  | call c next ih => exact ih _ _

/-- Writing down the calls changes neither the result nor the state. -/
theorem trace_eq_run {σ : Type} (answer : Answering σ) (p : Program α) (s : σ) :
    ((p.trace answer s).1.1, (p.trace answer s).2) = p.run answer s := by
  induction p generalizing s with
  | done a | fail fault => rfl
  | call c next ih => exact ih _ _

end Program

end StacCatalog
