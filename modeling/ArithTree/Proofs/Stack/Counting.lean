import ArithTree.Proofs.Reading
import ArithTree.Proofs.Stack.Postfix
import ArithTree.Session

/-!
# A stack seen through its size

Whether a request to a stack is refused, and with which message, depends on the number of operands
and, where a literal is pushed, on whether it is NaN. Neither the trees nor their literals nor the
format take part. `Glimpse` is what is left of a request when the rest is covered up, and a number in
place of the stack answers it. That a refused operation leaves the stack alone is A.3 of
`SPEC_FULL.md`.

* `Session.sights`, `Glimpse.sights`: what a run of requests shows of a session, and what it shows of
  a number that stands for the stack.
* `Call.on_counted`, `Stack.finish_counted`: what comes of a call and of finishing, and that a failing
  call leaves the stack as it was.
* `Session.step_counted`: one request does the same to a session and to the number, and leaves the
  number the size of the stack.
* `sights_eq_of_size`: so does a whole run.
-/

namespace ArithTree

variable {F : Format}

/-! ## Requests and what is seen of them -/

/-- What the owner of a stack can ask for. -/
inductive Request (F : Format) where
  /-- Call an action. -/
  | call (call : Call F)
  /-- Finish the tree and go on with an empty stack. -/
  | finish
  /-- Finish the tree on a copy and go on with the stack. -/
  | peek

/-- The step of a session that does what is asked for. -/
def Request.step : Request F → Step F
  | .call (.push t) => .push t.draft
  | .call (.token token) => .token token
  | .finish => .finish
  | .peek => .peek

/-- What is seen of a session after a step: the message if the step was refused, the number of
operands, and whether there are none. -/
structure Sight where
  refusal : Option String
  size : Nat
  isEmpty : Bool
  deriving DecidableEq, Repr

/-- The message of a refusal. -/
def Reply.refusal? : Reply F → Option String
  | .refused fault => some fault.message
  | _ => none

/-- What is seen of a session when a step has led to it with a reply. -/
def Session.sight (s : Session F) (reply : Reply F) : Sight :=
  ⟨reply.refusal?, s.stack.size, s.stack.isEmpty⟩

/-- What is seen of a session after each request of a run. -/
def Session.sights (s : Session F) : List (Request F) → List Sight
  | [] => []
  | request :: requests =>
    let (next, reply, _) := s.step request.step
    next.sight reply :: next.sights requests

/-! ## A number in place of the stack -/

/-- What a counter of operands sees of a request. -/
inductive Glimpse where
  /-- An operand is pushed; whether it is NaN. -/
  | push (nan : Bool)
  | binary (op : Operation)
  | neg
  | finish
  | peek
  deriving DecidableEq, Repr

/-- What a counter sees of a call. A tree holds no NaN. -/
def Call.glimpse : Call F → Glimpse
  | .push _ => .push false
  | .token (.literal v) => .push (decide (v = .nan))
  | .token (.binary op) => .binary op
  | .token .neg => .neg

/-- What a counter sees of a request. -/
def Request.glimpse : Request F → Glimpse
  | .call one => one.glimpse
  | .finish => .finish
  | .peek => .peek

namespace Glimpse

/-- The message of a finish that is refused with this number of operands. -/
def unfinished : Nat → Option String
  | 0 => some "cannot build a tree from an empty stack"
  | 1 => none
  | n => some (toString n ++ " trees are left on the stack, operators are missing")

/-- The message with which a counter refuses, if it does. -/
def refusal? : Glimpse → Nat → Option String
  | .push true, _ => some "number literal must not be NaN"
  | .push false, _ => none
  | .binary .add, 0 => some "addition is missing both operands"
  | .binary .mul, 0 => some "multiplication is missing both operands"
  | .binary .add, 1 => some "addition is missing its left operand"
  | .binary .mul, 1 => some "multiplication is missing its left operand"
  | .binary _, _ => none
  | .neg, 0 => some "unary minus is missing its operand"
  | .neg, _ => none
  | .finish, n => unfinished n
  | .peek, n => unfinished n

/-- The count with which a counter goes on. A refused operation changes nothing. -/
def count : Glimpse → Nat → Nat
  | .push true, n => n
  | .push false, n => n + 1
  | .binary _, n + 2 => n + 1
  | .binary _, n => n
  | .neg, n => n
  | .finish, _ => 0
  | .peek, n => n

/-- What is seen of a counter after each request of a run. -/
def sights (n : Nat) : List Glimpse → List Sight
  | [] => []
  | glimpse :: glimpses =>
    ⟨glimpse.refusal? n, glimpse.count n, glimpse.count n == 0⟩ ::
      sights (glimpse.count n) glimpses

/-! The counter spells its messages out; they are those of the causes. -/

theorem refusal?_binary_zero (op : Operation) :
    (binary op).refusal? 0 = some (Cause.missingBothOperands op).message := by
  cases op <;> rfl

theorem refusal?_binary_one (op : Operation) :
    (binary op).refusal? 1 = some (Cause.missingLeftOperand op).message := by
  cases op <;> rfl

theorem refusal?_binary_add_two (op : Operation) (n : Nat) : (binary op).refusal? (n + 2) = none := by
  cases op <;> rfl

end Glimpse

/-! ## One call -/

/-- What comes of a call on a stack, seen by a counter of its operands: the call succeeds where the
counter does, with the new count; or it fails with the counter's message and leaves the stack as it
was. -/
theorem Call.on_counted (call : Call F) (s : Stack F) :
    (∃ s', call.action.on s = (.ok (), s') ∧ call.glimpse.refusal? s.size = none ∧
      s'.size = call.glimpse.count s.size) ∨
    ∃ cause, call.action.on s = (.error cause, s) ∧
      call.glimpse.refusal? s.size = some cause.message ∧ s.size = call.glimpse.count s.size ∧
      ∀ op, cause ≠ .lostOperands op := by
  cases call with
  | push t => exact Or.inl ⟨s.push t, rfl, rfl, rfl⟩
  | token token =>
    cases token with
    | literal v =>
      cases v with
      | nan => exact Or.inr ⟨_, Action.pushLiteral_nan_on s, rfl, rfl, nofun⟩
      | number x => exact Or.inl ⟨_, Action.pushLiteral_number_on x s, rfl, rfl⟩
    | binary op =>
      obtain rfl | ⟨below, r, rfl⟩ := s.eq_empty_or_push
      · have hrefusal := Glimpse.refusal?_binary_zero op
        exact Or.inr ⟨_, Action.binary_on_empty op, hrefusal, rfl, nofun⟩
      obtain rfl | ⟨below, l, rfl⟩ := below.eq_empty_or_push
      · have hrefusal := Glimpse.refusal?_binary_one op
        exact Or.inr ⟨_, Action.binary_on_single op r, hrefusal, rfl, nofun⟩
      · have hrefusal := Glimpse.refusal?_binary_add_two op below.size
        exact Or.inl ⟨_, Action.binary_on_push_push op below l r, hrefusal, rfl⟩
    | neg =>
      obtain rfl | ⟨below, t, rfl⟩ := s.eq_empty_or_push
      · exact Or.inr ⟨_, Action.neg_on_empty, rfl, rfl, nofun⟩
      · exact Or.inl ⟨_, Action.neg_on_push below t, rfl, rfl⟩

/-- A call succeeds or leaves the stack as it was. -/
theorem Call.on_ok_or_unchanged (call : Call F) (s : Stack F) :
    (call.action.on s).1 = .ok () ∨ (call.action.on s).2 = s := by
  obtain ⟨s', hstep, -, -⟩ | ⟨cause, hstep, -, -, -⟩ := call.on_counted s
  · exact Or.inl (congrArg Prod.fst hstep)
  · exact Or.inr (congrArg Prod.snd hstep)

/-- No call counts operands that are not there. -/
theorem Call.on_ne_lostOperands (call : Call F) (s : Stack F) (op : Operation) :
    (call.action.on s).1 ≠ .error (.lostOperands op) := by
  intro h
  obtain ⟨s', hstep, -, -⟩ | ⟨cause, hstep, -, -, hcause⟩ := call.on_counted s
  · rw [hstep] at h
    cases h
  · rw [hstep] at h
    exact hcause op (Except.error.inj h)

/-- What comes of finishing a stack, seen by a counter of its operands. -/
theorem Stack.finish_counted (s : Stack F) :
    (∃ t, s.finish = .ok t ∧ Glimpse.unfinished s.size = none) ∨
      ∃ cause, s.finish = .error cause ∧ Glimpse.unfinished s.size = some cause.message ∧
        ∀ op, cause ≠ .lostOperands op := by
  obtain ⟨operands⟩ := s
  match operands with
  | [] => exact Or.inr ⟨.emptyStack, rfl, rfl, nofun⟩
  | [t] => exact Or.inl ⟨t, rfl, rfl⟩
  | _ :: _ :: below => exact Or.inr ⟨.unfinished (below.length + 2), rfl, rfl, nofun⟩

/-- Finishing does not lose operands. -/
theorem Stack.finish_ne_lostOperands (s : Stack F) (op : Operation) :
    s.finish ≠ .error (.lostOperands op) := by
  intro h
  obtain ⟨t, hfinish, -⟩ | ⟨cause, hfinish, -, hcause⟩ := s.finish_counted
  · rw [hfinish] at h
    cases h
  · rw [hfinish] at h
    exact hcause op (Except.error.inj h)

/-! ## One request of a session -/

theorem Stack.isEmpty_eq (s : Stack F) : s.isEmpty = (s.size == 0) := by
  obtain rfl | ⟨below, t, rfl⟩ := s.eq_empty_or_push
  · rfl
  · rfl

theorem Session.step_call (s : Session F) (call : Call F) :
    s.step (Request.call call).step = s.acting call.action := by
  cases call with
  | push t =>
    have hbuild : t.draft.build = .ok t := Draft.build_eq_ok_iff.mpr rfl
    show s.acting (do Action.push (← MonadExcept.ofExcept t.draft.build)) = _
    rw [hbuild]
    rfl
  | token token => rfl

/-- A request does the same to a session as to the number of its operands: both refuse it with the
same message, or neither does, and then the numbers agree again. -/
theorem Session.step_counted (s : Session F) (request : Request F) :
    ∃ next reply events, s.step request.step = (next, reply, events) ∧
      reply.refusal? = request.glimpse.refusal? s.stack.size ∧
      next.stack.size = request.glimpse.count s.stack.size := by
  cases request with
  | call call =>
    rw [step_call]
    unfold acting
    obtain ⟨s', hstep, hrefusal, hsize⟩ | ⟨cause, hstep, hrefusal, hsize, -⟩ :=
      call.on_counted s.stack
    · rw [hstep]
      exact ⟨_, _, _, rfl, hrefusal.symm, hsize⟩
    · rw [hstep]
      exact ⟨_, _, _, rfl, hrefusal.symm, hsize⟩
  | finish =>
    show ∃ next reply events, s.step .finish = _ ∧ _
    obtain ⟨t, hfinish, hrefusal⟩ | ⟨cause, hfinish, hrefusal, -⟩ := s.stack.finish_counted
    · unfold step Stack.tracedFinish
      rw [hfinish]
      exact ⟨_, _, _, rfl, hrefusal.symm, rfl⟩
    · unfold step Stack.tracedFinish
      rw [hfinish]
      exact ⟨_, _, _, rfl, hrefusal.symm, rfl⟩
  | peek =>
    show ∃ next reply events, s.step .peek = _ ∧ _
    obtain ⟨t, hfinish, hrefusal⟩ | ⟨cause, hfinish, hrefusal, -⟩ := s.stack.finish_counted
    · unfold step Stack.tracedFinish
      rw [hfinish]
      exact ⟨_, _, _, rfl, hrefusal.symm, rfl⟩
    · unfold step Stack.tracedFinish
      rw [hfinish]
      exact ⟨_, _, _, rfl, hrefusal.symm, rfl⟩

/-! ## Runs -/

/-- What a run shows of a session is what it shows of the number of its operands. -/
theorem Session.sights_eq (s : Session F) (requests : List (Request F)) :
    s.sights requests = Glimpse.sights s.stack.size (requests.map Request.glimpse) := by
  induction requests generalizing s with
  | nil => rfl
  | cons request requests ih =>
    obtain ⟨next, reply, events, hstep, hrefusal, hsize⟩ := s.step_counted request
    have hsights : s.sights (request :: requests) = next.sight reply :: next.sights requests := by
      rw [sights, hstep]
    rw [hsights, ih next, List.map_cons, Glimpse.sights, ← hsize, ← hrefusal, sight,
      Stack.isEmpty_eq]

/-- **A stack answers like a counter of its operands.** After every request of every run, the message
of a refusal, the number of operands and whether there are none are those of a number that starts as
the size of the stack and sees of each request only its glimpse. Every call succeeds or leaves the
operands as they were, and no stack has lost operands, neither in a call nor at the end. -/
theorem sights_eq_of_size (F : Format) :
    (∀ (s : Session F) (requests : List (Request F)),
      s.sights requests = Glimpse.sights s.stack.size (requests.map Request.glimpse)) ∧
    (∀ (s : Stack F) (call : Call F),
      (call.action.on s).1 = .ok () ∨ (call.action.on s).2 = s) ∧
    ∀ (s : Stack F) (op : Operation), s.finish ≠ .error (.lostOperands op) ∧
      ∀ call : Call F, (call.action.on s).1 ≠ .error (.lostOperands op) :=
  ⟨Session.sights_eq, fun s call => call.on_ok_or_unchanged s, fun s op =>
    ⟨s.finish_ne_lostOperands op, fun call => call.on_ne_lostOperands s op⟩⟩

end ArithTree
