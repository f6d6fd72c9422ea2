import DataflowIR.Event
import DataflowIR.Fault

namespace DataflowIR

/-- A computation over a state that may fail. A failure keeps the state that it arose in, so that
what was emitted and reported before it stays visible. -/
abbrev Act (σ α : Type) := ExceptT Fault (StateM σ) α

namespace Act

variable {σ α : Type}

def fail (f : Fault) : Act σ α :=
  throw f

/-- Run to an outcome that can be looked at; the state goes on from where the failure left it. -/
def attempt (act : Act σ α) : Act σ (Except Fault α) :=
  ExceptT.mk fun s => let (r, s') := act.run s; (.ok r, s')

/-- Take up the outcome of an attempt. -/
def resume : Except Fault α → Act σ α
  | .ok a => pure a
  | .error f => fail f

def exec (act : Act σ α) (s : σ) : Except Fault α × σ :=
  act.run s

/-- Run on a part of the state. -/
def focus {τ : Type} (get : σ → τ) (set : τ → σ → σ) (act : Act τ α) : Act σ α :=
  ExceptT.mk fun s => let (r, t) := act.run (get s); (r, set t s)

variable {β τ : Type}

@[simp] theorem exec_pure (a : α) (s : σ) : (pure a : Act σ α).exec s = (.ok a, s) := rfl

@[simp] theorem exec_fail (f : Fault) (s : σ) :
    (fail f : Act σ α).exec s = (.error f, s) := rfl

@[simp] theorem exec_get (s : σ) : (get : Act σ σ).exec s = (.ok s, s) := rfl

@[simp] theorem exec_modify (f : σ → σ) (s : σ) :
    (modify f : Act σ Unit).exec s = (.ok (), f s) := rfl

@[simp] theorem exec_modifyGet (f : σ → α × σ) (s : σ) :
    (modifyGet f : Act σ α).exec s = (.ok (f s).1, (f s).2) := rfl

@[simp] theorem exec_attempt (act : Act σ α) (s : σ) :
    act.attempt.exec s = (.ok (act.exec s).1, (act.exec s).2) := rfl

@[simp] theorem exec_resume (r : Except Fault α) (s : σ) :
    (resume r : Act σ α).exec s = (r, s) := by
  cases r <;> rfl

@[simp] theorem exec_focus (get : σ → τ) (set : τ → σ → σ) (act : Act τ α) (s : σ) :
    (focus get set act).exec s = ((act.exec (get s)).1, set (act.exec (get s)).2 s) := rfl

/-- What follows a failure does not run. -/
theorem exec_bind (act : Act σ α) (next : α → Act σ β) (s : σ) :
    (act >>= next).exec s =
      match act.exec s with
      | (.ok a, t) => (next a).exec t
      | (.error f, t) => (.error f, t) := by
  have h : (act >>= next).exec s = ExceptT.bindCont next (act.exec s).1 (act.exec s).2 := rfl
  rw [h]
  rcases act.exec s with ⟨r, t⟩
  cases r <;> rfl

end Act

/-- What all computations share: the supply of unused tags and indices, and the reports so far,
the latest first. -/
structure World where
  next : Nat
  log : List Event
  deriving Inhabited

namespace World

def empty : World := ⟨0, []⟩

def fresh (w : World) : Nat × World :=
  (w.next, { w with next := w.next + 1 })

def report (w : World) (e : Event) : World :=
  { w with log := e :: w.log }

/-- The reports at least as severe as `least`, the earliest first. -/
def reports (w : World) (least : Severity) : List Event :=
  (w.log.filter fun e => least.rank ≤ e.severity.rank).reverse

end World

end DataflowIR
