import ArithTree.Session

/-!
# Faults recorded where they are raised

A session carries out an action, and then records the fault that came out of it. That says nothing of
faults that are raised on the way and dropped, or raised twice. Here a computation records every event at
the place where it happens: a fault where it is raised, in the middle of an action, and a finished tree
where it is taken off the stack.

* `Recorded`: computations on a stack with their events; `Recorded.raise` is the only way to a fault.
* `Recorded.ofAction_bind`: what is recorded of an action in parts is recorded of its parts.
* `Session.recordedStep_eq`: with all faults recorded where they are raised, every step of a session
  leads to the same session, reply and events. So no step raises a fault that it does not report.
-/

namespace ArithTree

variable {F : Format} {α β : Type}

/-- A computation that works on a stack in place and records its events as they happen. -/
@[ext] structure Recorded (F : Format) (α : Type) where
  /-- The outcome on a stack with the events on the way, and the stack that is left. -/
  on : Stack F → Traced α × Stack F

namespace Recorded

/-! ## Computations -/

protected def pure (x : α) : Recorded F α := ⟨fun s => (⟨.ok x, []⟩, s)⟩

/-- What follows a computation. After a fault nothing does; the events stay. -/
def andThen (f : α → Recorded F β) : Traced α × Stack F → Traced β × Stack F
  | (⟨.error fault, events⟩, s) => (⟨.error fault, events⟩, s)
  | (⟨.ok x, events⟩, s) =>
    let (traced, s') := (f x).on s
    (⟨traced.outcome, events ++ traced.events⟩, s')

protected def bind (a : Recorded F α) (f : α → Recorded F β) : Recorded F β :=
  ⟨fun s => andThen f (a.on s)⟩

instance : Monad (Recorded F) where
  pure := Recorded.pure
  bind := Recorded.bind

/-- Raises a fault and records it. -/
def raise (cause : Cause) : Recorded F α :=
  ⟨fun s => (⟨.error cause.fault, [.raised cause.fault]⟩, s)⟩

/-- Records an event. -/
def record (e : Event) : Recorded F Unit := ⟨fun s => (⟨.ok (), [e]⟩, s)⟩

/-- The number of operands. -/
def size : Recorded F Nat := ⟨fun s => (⟨.ok s.size, []⟩, s)⟩

/-- Puts a tree on top. -/
def push (t : Tree F) : Recorded F Unit := ⟨fun s => (⟨.ok (), []⟩, s.push t)⟩

/-- Takes the topmost tree off, if there is one. -/
def pop : Recorded F (Option (Tree F)) :=
  ⟨fun s => (⟨.ok s.operands.head?, []⟩, ⟨s.operands.tail⟩)⟩

/-! ## Building trees -/

/-- A literal, which must not be NaN. -/
def literal : Value F → Recorded F (Number F)
  | .nan => raise .nanLiteral
  | .number x => pure x

/-- The tree of a draft, its literals from left to right. -/
def build : Draft F → Recorded F (Tree F)
  | .num v => do return .num (← literal v)
  | .binary op l r => do
    let left ← build l
    let right ← build r
    return .binary op left right
  | .neg e => do return .neg (← build e)

/-- Takes off the operands of a binary operation, the left one and the right one. -/
def popTwo (op : Operation) : Recorded F (Tree F × Tree F) := do
  match ← size with
  | 0 => raise (.missingBothOperands op)
  | 1 => raise (.missingLeftOperand op)
  | _ =>
    let right ← pop
    let left ← pop
    match right, left with
    | some right, some left => return (left, right)
    | _, _ => raise (.lostOperands op)

/-- Joins the two topmost trees. -/
def binary (op : Operation) : Recorded F Unit := do
  let (left, right) ← popTwo op
  push (.binary op left right)

/-- Changes the sign of the topmost tree. -/
def neg : Recorded F Unit := do
  match ← pop with
  | some operand => push (.neg operand)
  | none => raise .missingOperand

/-- Carries out a token of a postfix program. -/
def token : Token F → Recorded F Unit
  | .literal v => do push (.num (← literal v))
  | .binary op => binary op
  | .neg => neg

/-- Adds up until a single tree is left. -/
def addUp : Recorded F Unit := do
  (List.replicate ((← size) - 1) Operation.add).forM binary

/-- Takes off the tree that has been built, if there is exactly one. -/
def finish : Recorded F (Tree F) := do
  let n ← size
  if 1 < n then raise (.unfinished n)
  else
    match ← pop with
    | some t => do
      record (.finished t.isLiteral)
      return t
    | none => raise .emptyStack

/-! ## Actions, with their fault recorded at the end -/

/-- An action, and then the fault that came out of it. -/
def ofAction (a : Action F α) : Recorded F α :=
  ⟨fun s => (.ofExcept (a.on s).1, (a.on s).2)⟩

theorem on_ofAction {a : Action F α} {s s' : Stack F} {outcome : Except Cause α}
    (h : a.on s = (outcome, s')) : (ofAction a).on s = (.ofExcept outcome, s') := by
  show (Traced.ofExcept (a.on s).1, (a.on s).2) = _
  rw [h]

theorem bind_on_of_ok {a : Recorded F α} {f : α → Recorded F β} {s s' : Stack F} {x : α}
    (h : a.on s = (⟨.ok x, []⟩, s')) : (a >>= f).on s = (f x).on s' := by
  show andThen f (a.on s) = _
  rw [h]
  rfl

theorem bind_on_of_error {a : Recorded F α} {f : α → Recorded F β} {s s' : Stack F} {fault : Fault}
    {events : List Event} (h : a.on s = (⟨.error fault, events⟩, s')) :
    (a >>= f).on s = (⟨.error fault, events⟩, s') := by
  show andThen f (a.on s) = _
  rw [h]
  rfl

/-- **What is recorded of an action in parts is recorded of its parts.** -/
theorem ofAction_bind (a : Action F α) (f : α → Action F β) :
    ofAction (a >>= f) = ofAction a >>= fun x => ofAction (f x) := by
  ext1
  funext s
  match h : a.on s with
  | (.ok x, s') =>
    rw [bind_on_of_ok (on_ofAction h)]
    exact on_ofAction (Action.bind_on_of_ok h)
  | (.error cause, s') =>
    rw [bind_on_of_error (on_ofAction h)]
    exact on_ofAction (Action.bind_on_of_error h)

/-- The tree of a draft, as an action that leaves the stack alone. -/
theorem build_eq (d : Draft F) : build d = ofAction (MonadExcept.ofExcept d.build) := by
  induction d with
  | num v => cases v <;> rfl
  | binary op l r ihl ihr =>
    unfold build Draft.build
    rw [ihl, ihr]
    cases l.build with
    | error cause => rfl
    | ok left => cases r.build <;> rfl
  | neg e ih =>
    unfold build Draft.build
    rw [ih]
    cases e.build <;> rfl

theorem binary_eq (op : Operation) : binary op = ofAction (F := F) (.binary op) := by
  ext1
  funext s
  obtain rfl | ⟨below, r, rfl⟩ := s.eq_empty_or_push
  · rfl
  obtain rfl | ⟨below, l, rfl⟩ := below.eq_empty_or_push
  · rfl
  · rfl

theorem token_eq (token : Token F) : Recorded.token token = ofAction token.action := by
  cases token with
  | literal v => cases v <;> rfl
  | binary op => exact binary_eq op
  | neg =>
    ext1
    funext s
    obtain rfl | ⟨below, t, rfl⟩ := s.eq_empty_or_push
    · rfl
    · rfl

theorem forM_binary_eq (ops : List Operation) :
    ops.forM binary = ofAction (F := F) (.applyAll ops) := by
  induction ops with
  | nil => rfl
  | cons op ops ih =>
    have hbind : Action.applyAll (F := F) (op :: ops)
        = .binary op >>= fun _ => .applyAll ops := rfl
    rw [hbind, ofAction_bind, ← binary_eq, ← ih]
    rfl

theorem addUp_eq : addUp = ofAction (F := F) .collapse := by
  have hcollapse (s : Stack F) : (ofAction .collapse).on s
      = (ofAction (.applyAll (List.replicate (s.size - 1) .add))).on s := rfl
  ext1
  funext s
  rw [hcollapse, ← forM_binary_eq]
  exact bind_on_of_ok rfl

/-- Finishing on the stack has the outcome and the events that finishing a copy of it has. -/
theorem finish_on (s : Stack F) : (finish.on s).1 = s.tracedFinish := by
  obtain ⟨operands⟩ := s
  match operands with
  | [] => rfl
  | [t] => rfl
  | _ :: _ :: _ => rfl

/-- The same if something is made of the tree. -/
theorem finish_map_on (f : Tree F → α) (s : Stack F) :
    ((do return f (← finish) : Recorded F α).on s).1 = do return f (← s.tracedFinish) := by
  obtain ⟨operands⟩ := s
  match operands with
  | [] => rfl
  | [t] => rfl
  | _ :: _ :: _ => rfl

end Recorded

/-! ## Sessions -/

namespace Session

/-- A step that works on the stack. -/
def working (s : Session F) (a : Recorded F Unit) : Session F × Reply F × List Event :=
  let (traced, stack) := a.on s.stack
  ({ s with stack }, .ofOutcome (traced.outcome.map fun _ => .done), traced.events)

/-- A step that works on a copy of the stack. -/
def aside (s : Session F) (a : Recorded F (Reply F)) : Session F × Reply F × List Event :=
  let (traced, _) := a.on s.stack
  (s, .ofOutcome traced.outcome, traced.events)

/-- Carries out one step, with every event recorded where it happens. What is not here cannot fail. -/
def recordedStep (s : Session F) : Step F → Session F × Reply F × List Event
  | .token token => s.working (.token token)
  | .push draft => s.working do Recorded.push (← Recorded.build draft)
  | .peek => s.aside do return .tree (← Recorded.finish)
  | .same draft => s.aside do
    let expected ← Recorded.build draft
    let found ← Recorded.finish
    return .verdict (found.same expected)
  | .dump => s.aside do
    Recorded.addUp
    let sum ← Recorded.finish
    return .text sum.render
  | .finish =>
    let (traced, _) := Recorded.finish.on s.stack
    match traced.outcome with
    | .ok t => ({ s with stack := .empty, last := some t }, .tree t, traced.events)
    | .error fault => ({ s with stack := .empty }, .refused fault, traced.events)
  | .debug => s.step .debug
  | .last => s.step .last
  | .save => s.step .save
  | .load => s.step .load

theorem working_ofAction (s : Session F) (a : Action F Unit) : s.working (.ofAction a) = s.acting a :=
  rfl

theorem aside_eq {s : Session F} {a : Recorded F (Reply F)} {question : Traced (Reply F)}
    (h : (a.on s.stack).1 = question) : s.aside a = s.asking question := by
  unfold asking
  rw [← h]
  rfl

/-- **No step raises a fault that it does not report.** Recorded where they happen, the events are those
of the outcome. -/
theorem recordedStep_eq (s : Session F) (step : Step F) : s.recordedStep step = s.step step := by
  cases step with
  | token token =>
    show s.working (.token token) = s.acting token.action
    rw [Recorded.token_eq, working_ofAction]
  | push draft =>
    show s.working (Recorded.build draft >>= Recorded.push)
      = s.acting (MonadExcept.ofExcept draft.build >>= Action.push)
    rw [Recorded.build_eq, ← working_ofAction, Recorded.ofAction_bind]
    rfl
  | peek => exact aside_eq (Recorded.finish_map_on _ _)
  | same draft =>
    unfold recordedStep step
    refine aside_eq ?_
    rw [Recorded.build_eq]
    cases draft.build with
    | error cause => rfl
    | ok expected => exact Recorded.finish_map_on (fun found => Reply.verdict (found.same expected)) _
  | dump =>
    unfold recordedStep step
    refine aside_eq ?_
    rw [Recorded.addUp_eq]
    match h : Action.collapse.on s.stack with
    | (.error cause, collapsed) =>
      rw [Recorded.bind_on_of_error (Recorded.on_ofAction h)]
      rfl
    | (.ok _, collapsed) =>
      rw [Recorded.bind_on_of_ok (Recorded.on_ofAction h)]
      exact Recorded.finish_map_on (fun sum => Reply.text sum.render) collapsed
  | finish =>
    unfold step
    rw [← Recorded.finish_on]
    rfl
  | debug => rfl
  | last => rfl
  | save => rfl
  | load => rfl

end Session

end ArithTree
