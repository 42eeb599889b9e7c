import AppBroker.Error

/-!
# Actions

An action reads and changes a state and gives a result or fails. A failure keeps the state that was
reached: what was done before it stays done.
-/

namespace AppBroker

/-- A step on a state. -/
def Action (σ α : Type) : Type := σ → Outcome α × σ

namespace Action

variable {σ ρ α β : Type}

/-- Gives a value. -/
def pure (a : α) : Action σ α := fun s => (.ok a, s)

/-- Goes on with the result unless it is a failure. -/
def bind (m : Action σ α) (f : α → Action σ β) : Action σ β := fun s =>
  match m s with
  | (.ok a, s) => f a s
  | (.error e, s) => (.error e, s)

instance : Monad (Action σ) where
  pure := pure
  bind := bind

/-- The state. -/
def get : Action σ σ := fun s => (.ok s, s)

/-- Changes the state. -/
def modify (f : σ → σ) : Action σ Unit := fun s => (.ok (), f s)

/-- Gives an outcome. -/
def ofOutcome (o : Outcome α) : Action σ α := fun s => (o, s)

instance : MonadLift Outcome (Action σ) := ⟨ofOutcome⟩

/-- Does an action and gives its outcome, be it a failure. -/
def outcome (m : Action σ α) : Action σ (Outcome α) := fun s =>
  let (o, s) := m s
  (.ok o, s)

/-- Does an action and, however it ends, another one after it; a failure of the second wins. -/
def followedBy (m : Action σ α) (last : Action σ Unit) : Action σ α := fun s =>
  match m s with
  | (o, s) =>
    match last s with
    | (.ok (), s) => (o, s)
    | (.error e, s) => (.error e, s)

/-- Does an action on a part of the state. -/
def on (part : σ → ρ) (put : ρ → σ → σ) (m : Action ρ α) : Action σ α := fun s =>
  let (o, r) := m (part s)
  (o, put r s)

end Action

end AppBroker
