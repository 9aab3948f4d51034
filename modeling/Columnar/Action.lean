import Columnar.Error

/-!
# Actions on a state

An action reads and changes a state and ends in a result, an error or an abort. Unlike a failed
transaction, a failed action keeps the changes made before it failed: what is left behind then is
part of an operation's behaviour and has to be said.
-/

namespace Columnar

/-- An operation on a state `σ` with a result in `α`. -/
def Action (σ α : Type) := σ → Outcome α × σ

namespace Action

variable {σ τ α β : Type}

protected def pure (a : α) : Action σ α := fun s => (.ok a, s)

protected def bind (m : Action σ α) (f : α → Action σ β) : Action σ β := fun s =>
  match m s with
  | (.ok a, s) => f a s
  | (.error e, s) => (.error e, s)

instance : Monad (Action σ) where
  pure := Action.pure
  bind := Action.bind

/-- An outcome as an action that leaves the state alone. -/
def ofOutcome (o : Outcome α) : Action σ α := fun s => (o, s)

instance : MonadLift Outcome (Action σ) := ⟨ofOutcome⟩

def get : Action σ σ := fun s => (.ok s, s)

def set (s : σ) : Action σ Unit := fun _ => (.ok (), s)

def modify (f : σ → σ) : Action σ Unit := fun s => (.ok (), f s)

/-- Fail with an error. -/
def fail (e : Error) : Action σ α := ofOutcome (Outcome.fail e)

/-- Run an action and hand out its outcome, whatever it is. -/
def attempt (m : Action σ α) : Action σ (Outcome α) := fun s =>
  let (o, s) := m s
  (.ok o, s)

/-- Run an action and drop its error. An abort stays. -/
def quietly (m : Action σ Unit) : Action σ Unit := fun s =>
  let (o, s) := m s
  (o.quiet, s)

/-- Run an action on a part of the state. -/
def on (part : τ → σ) (update : σ → τ → τ) (m : Action σ α) : Action τ α := fun t =>
  let (o, s) := m (part t)
  (o, update s t)

/-- Change the error of a failed action. -/
def mapError (f : Error → Error) (m : Action σ α) : Action σ α := fun s =>
  let (o, s) := m s
  (o.mapError f, s)

@[simp] theorem pure_apply (a : α) (s : σ) : (pure a : Action σ α) s = (.ok a, s) := rfl

theorem bind_apply (m : Action σ α) (f : α → Action σ β) (s : σ) :
    (m >>= f) s = match m s with
      | (.ok a, s) => f a s
      | (.error e, s) => (.error e, s) := rfl

theorem bind_ok {m : Action σ α} {s s' : σ} {a : α} (h : m s = (.ok a, s'))
    (f : α → Action σ β) : (m >>= f) s = f a s' := by simp [bind_apply, h]

theorem bind_error {m : Action σ α} {s s' : σ} {e : Failure} (h : m s = (.error e, s'))
    (f : α → Action σ β) : (m >>= f) s = (.error e, s') := by simp [bind_apply, h]

@[simp] theorem ofOutcome_apply (o : Outcome α) (s : σ) : ofOutcome o s = (o, s) := rfl

@[simp] theorem get_apply (s : σ) : (get : Action σ σ) s = (.ok s, s) := rfl

@[simp] theorem set_apply (s t : σ) : set t s = (.ok (), t) := rfl

@[simp] theorem modify_apply (f : σ → σ) (s : σ) : modify f s = (.ok (), f s) := rfl

end Action

end Columnar
