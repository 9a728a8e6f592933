import ShaderAlgebra.Event

/-!
# Computations that report events

A `Logged ε α` is an outcome, a value or an error, with the events that were reported on the way to
it. The events of a failed computation are kept.

The outcome of a sequence is the sequence of the outcomes (`outcome_bind`), so a statement about
results can leave the events aside.
-/

namespace ShaderAlgebra

structure Logged (ε α : Type) where
  events : List Event
  outcome : Except ε α

namespace Logged

variable {ε ε' α β : Type}

/-- A computation that reports nothing. -/
def ofExcept (outcome : Except ε α) : Logged ε α := ⟨[], outcome⟩

/-- Reports events. -/
def emitAll (events : List Event) : Logged ε Unit := ⟨events, .ok ()⟩

/-- Reports one event. -/
def emit (event : Event) : Logged ε Unit := emitAll [event]

protected def bind (x : Logged ε α) (next : α → Logged ε β) : Logged ε β :=
  match x.outcome with
  | .ok a =>
    let y := next a
    ⟨x.events ++ y.events, y.outcome⟩
  | .error e => ⟨x.events, .error e⟩

instance : Monad (Logged ε) where
  pure a := ⟨[], .ok a⟩
  bind := Logged.bind

instance : MonadExceptOf ε (Logged ε) where
  throw e := ⟨[], .error e⟩
  tryCatch x handle :=
    match x.outcome with
    | .ok _ => x
    | .error e =>
      let y := handle e
      ⟨x.events ++ y.events, y.outcome⟩

instance : MonadLift (Except ε) (Logged ε) where
  monadLift := ofExcept

/-- The same computation with its error changed. -/
def mapError (f : ε → ε') (x : Logged ε α) : Logged ε' α := ⟨x.events, x.outcome.mapError f⟩

/-- The outcome as a value: a failure is no longer one. -/
def attempt (x : Logged ε α) : Logged ε' (Except ε α) := ⟨x.events, .ok x.outcome⟩

@[simp] theorem outcome_pure (a : α) : (pure a : Logged ε α).outcome = .ok a := rfl

@[simp] theorem outcome_ofExcept (x : Except ε α) : (ofExcept x).outcome = x := rfl

@[simp] theorem outcome_mapError (f : ε → ε') (x : Logged ε α) :
    (x.mapError f).outcome = x.outcome.mapError f := rfl

@[simp] theorem outcome_attempt (x : Logged ε α) :
    (x.attempt : Logged ε' (Except ε α)).outcome = .ok x.outcome := rfl

@[simp] theorem outcome_emit (event : Event) : (emit event : Logged ε Unit).outcome = .ok () := rfl

@[simp] theorem outcome_bind (x : Logged ε α) (next : α → Logged ε β) :
    (x >>= next).outcome = x.outcome >>= fun a => (next a).outcome := by
  obtain ⟨events, outcome⟩ := x
  cases outcome <;> rfl

end Logged

end ShaderAlgebra
