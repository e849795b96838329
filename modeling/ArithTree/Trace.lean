import ArithTree.Stack

/-!
# Traced computations

A computation that may fail and leaves a record of events. Two things are recorded (`SPEC_FULL.md`,
A.8): that a fault was raised, and that a stack was finished. Both are recorded where they happen, by
`Traced.ofExcept` and by `Stack.tracedFinish`; a computation made of several parts has the events of
its parts in order, up to and including the first one that fails.
-/

namespace ArithTree

variable {F : Format} {α β : Type}

/-- What is recorded. -/
inductive Event where
  /-- A fault was raised. -/
  | raised (fault : Fault)
  /-- A tree was finished; whether it is a single literal. -/
  | finished (literal : Bool)
  deriving DecidableEq, Repr

/-- The event as a line of a log, with its level. -/
def Event.text : Event → String
  | .raised fault => "DEBUG invariant violation: " ++ fault.message
  | .finished literal => "TRACE finished tree, literal " ++ toString literal

/-- The outcome of a computation and the events on the way. -/
structure Traced (α : Type) where
  outcome : Except Fault α
  events : List Event

namespace Traced

protected def pure (a : α) : Traced α := ⟨.ok a, []⟩

protected def bind (x : Traced α) (f : α → Traced β) : Traced β :=
  match x.outcome with
  | .error fault => ⟨.error fault, x.events⟩
  | .ok a => ⟨(f a).outcome, x.events ++ (f a).events⟩

instance : Monad Traced where
  pure := Traced.pure
  bind := Traced.bind

/-- Records an event. -/
def record (e : Event) : Traced Unit := ⟨.ok (), [e]⟩

/-- A computation that raises a fault if it fails. -/
def ofExcept : Except Cause α → Traced α
  | .ok a => ⟨.ok a, []⟩
  | .error cause => ⟨.error cause.fault, [.raised cause.fault]⟩

@[simp] theorem pure_eq (a : α) : (pure a : Traced α) = ⟨.ok a, []⟩ := rfl

@[simp] theorem ok_bind (a : α) (es : List Event) (f : α → Traced β) :
    (⟨.ok a, es⟩ : Traced α) >>= f = ⟨(f a).outcome, es ++ (f a).events⟩ := rfl

@[simp] theorem error_bind (fault : Fault) (es : List Event) (f : α → Traced β) :
    (⟨.error fault, es⟩ : Traced α) >>= f = ⟨.error fault, es⟩ := rfl

@[simp] theorem ofExcept_ok (a : α) : ofExcept (.ok a) = ⟨.ok a, []⟩ := rfl

@[simp] theorem ofExcept_error (cause : Cause) :
    (ofExcept (.error cause) : Traced α) = ⟨.error cause.fault, [.raised cause.fault]⟩ := rfl

end Traced

/-- Finishes the stack and records that, if there is a tree to hand out (A.8). -/
def Stack.tracedFinish (s : Stack F) : Traced (Tree F) := do
  let t ← Traced.ofExcept s.finish
  Traced.record (.finished t.isLiteral)
  return t

end ArithTree
