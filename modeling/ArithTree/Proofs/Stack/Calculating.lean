import ArithTree.Proofs.Stack.Counting

/-!
# Evaluating while a tree is built

A calculator works on values where a stack works on trees: an operation takes its operands from the
top, the right one first, and puts their value back at once. It refuses what a stack refuses, a NaN
literal included, but it does not look at the values that it computes. How literals and operations
are read is left open (`Interpretation`), so that nothing is said here by a law of arithmetic.

* `Calculator.answer`: what a calculator answers to a request, and the calculator that it leads to.
* `Call.on_calculated`, `Session.step_calculated`: one call and one request do the same to a stack
  as to the calculator that holds the values of its trees.
* `readouts_eq_calculator`: so does a whole run. Whatever is asked for in between, the trees of the
  stack have the values of the calculator, and a finished tree has the one value that is left.
-/

namespace ArithTree

variable {F : Format} {α : Type}

/-! ## A stack of values -/

/-- Values awaiting an operation, the topmost first. -/
structure Calculator (α : Type) where
  values : List α

/-- What is seen after a request: the fault, or the value of a finished tree if there is one; and the
values on the stack, the lowest first. -/
structure Readout (α : Type) where
  outcome : Except Fault (Option α)
  values : List α

namespace Calculator

/-- What comes of a call, where a refused one changes nothing. -/
def call? (I : Interpretation F α) (c : Calculator α) : Call F → Except Cause (Calculator α)
  | .push t => .ok ⟨t.interpret I :: c.values⟩
  | .token (.literal .nan) => .error .nanLiteral
  | .token (.literal (.number x)) => .ok ⟨I.literal x :: c.values⟩
  | .token (.binary op) =>
    match c.values with
    | [] => .error (.missingBothOperands op)
    | [_] => .error (.missingLeftOperand op)
    | right :: left :: below => .ok ⟨I.binary op left right :: below⟩
  | .token .neg =>
    match c.values with
    | [] => .error .missingOperand
    | operand :: below => .ok ⟨I.neg operand :: below⟩

/-- The value that is left, if it is the only one. -/
def finish? (c : Calculator α) : Except Cause α :=
  match c.values with
  | [] => .error .emptyStack
  | [v] => .ok v
  | values => .error (.unfinished values.length)

/-- What is seen of an attempt to finish. -/
def finished (c : Calculator α) : Except Fault (Option α) :=
  match c.finish? with
  | .ok v => .ok (some v)
  | .error cause => .error cause.fault

/-- The answer to a request, and the calculator that goes on. -/
def answer (I : Interpretation F α) (c : Calculator α) :
    Request F → Except Fault (Option α) × Calculator α
  | .call call =>
    match c.call? I call with
    | .ok next => (.ok none, next)
    | .error cause => (.error cause.fault, c)
  | .finish => (c.finished, ⟨[]⟩)
  | .peek => (c.finished, c)

/-- What is seen after each request of a run. -/
def readouts (I : Interpretation F α) (c : Calculator α) : List (Request F) → List (Readout α)
  | [] => []
  | request :: requests =>
    let (outcome, next) := c.answer I request
    ⟨outcome, next.values.reverse⟩ :: next.readouts I requests

end Calculator

/-! ## The values of a stack of trees -/

/-- The calculator that holds the values of the trees. -/
def Stack.calculator (I : Interpretation F α) (s : Stack F) : Calculator α :=
  ⟨s.operands.map (Tree.interpret I)⟩

/-- What is seen of a reply when trees are seen as their values. -/
def Reply.outcome (I : Interpretation F α) : Reply F → Except Fault (Option α)
  | .refused fault => .error fault
  | .tree t => .ok (some (t.interpret I))
  | _ => .ok none

/-- What is seen of a session when a step has led to it with a reply. -/
def Session.readout (I : Interpretation F α) (s : Session F) (reply : Reply F) : Readout α :=
  ⟨reply.outcome I, s.stack.bottomUp.map (Tree.interpret I)⟩

/-- What is seen of a session after each request of a run. -/
def Session.readouts (I : Interpretation F α) (s : Session F) :
    List (Request F) → List (Readout α)
  | [] => []
  | request :: requests =>
    let (next, reply, _) := s.step request.step
    next.readout I reply :: next.readouts I requests

theorem Stack.values_calculator (I : Interpretation F α) (s : Stack F) :
    (s.calculator I).values.reverse = s.bottomUp.map (Tree.interpret I) :=
  List.map_reverse.symm

/-! ## One request -/

/-- A call does the same to a stack as to its calculator: both go on, and the trees have the values
again, or both refuse for the same cause, and the stack stays as it was. -/
theorem Call.on_calculated (I : Interpretation F α) (call : Call F) (s : Stack F) :
    (∃ s', call.action.on s = (.ok (), s') ∧
      (s.calculator I).call? I call = .ok (s'.calculator I)) ∨
    ∃ cause, call.action.on s = (.error cause, s) ∧
      (s.calculator I).call? I call = .error cause := by
  cases call with
  | push t => exact Or.inl ⟨s.push t, rfl, rfl⟩
  | token token =>
    cases token with
    | literal v =>
      cases v with
      | nan => exact Or.inr ⟨_, Action.pushLiteral_nan_on s, rfl⟩
      | number x => exact Or.inl ⟨_, Action.pushLiteral_number_on x s, rfl⟩
    | binary op =>
      obtain rfl | ⟨below, r, rfl⟩ := s.eq_empty_or_push
      · exact Or.inr ⟨_, Action.binary_on_empty op, rfl⟩
      obtain rfl | ⟨below, l, rfl⟩ := below.eq_empty_or_push
      · exact Or.inr ⟨_, Action.binary_on_single op r, rfl⟩
      · exact Or.inl ⟨_, Action.binary_on_push_push op below l r, rfl⟩
    | neg =>
      obtain rfl | ⟨below, t, rfl⟩ := s.eq_empty_or_push
      · exact Or.inr ⟨_, Action.neg_on_empty, rfl⟩
      · exact Or.inl ⟨_, Action.neg_on_push below t, rfl⟩

/-- The tree that is finished has the value that is left. -/
theorem Stack.finish_calculated (I : Interpretation F α) (s : Stack F) :
    (∃ t, s.finish = .ok t ∧ (s.calculator I).finished = .ok (some (t.interpret I))) ∨
      ∃ cause, s.finish = .error cause ∧ (s.calculator I).finished = .error cause.fault := by
  obtain ⟨operands⟩ := s
  match operands with
  | [] => exact Or.inr ⟨.emptyStack, rfl, rfl⟩
  | [t] => exact Or.inl ⟨t, rfl, rfl⟩
  | t :: u :: below =>
    refine Or.inr ⟨.unfinished (below.length + 2), rfl, ?_⟩
    simp [calculator, Calculator.finished, Calculator.finish?]

/-- A request does the same to a session as to the calculator of its stack. -/
theorem Session.step_calculated (I : Interpretation F α) (s : Session F) (request : Request F) :
    ∃ next reply events, s.step request.step = (next, reply, events) ∧
      (s.stack.calculator I).answer I request = (reply.outcome I, next.stack.calculator I) := by
  cases request with
  | call call =>
    rw [step_call, acting, Calculator.answer]
    obtain ⟨s', hstep, hcall⟩ | ⟨cause, hstep, hcall⟩ := call.on_calculated I s.stack
    · rw [hstep, hcall]
      exact ⟨_, _, _, rfl, rfl⟩
    · rw [hstep, hcall]
      exact ⟨_, _, _, rfl, rfl⟩
  | finish =>
    show ∃ next reply events, s.step .finish = _ ∧ _
    unfold step Stack.tracedFinish Calculator.answer
    obtain ⟨t, hfinish, hfinished⟩ | ⟨cause, hfinish, hfinished⟩ := s.stack.finish_calculated I
    · rw [hfinish, hfinished]
      exact ⟨_, _, _, rfl, rfl⟩
    · rw [hfinish, hfinished]
      exact ⟨_, _, _, rfl, rfl⟩
  | peek =>
    show ∃ next reply events, s.step .peek = _ ∧ _
    unfold step Stack.tracedFinish Calculator.answer
    obtain ⟨t, hfinish, hfinished⟩ | ⟨cause, hfinish, hfinished⟩ := s.stack.finish_calculated I
    · rw [hfinish, hfinished]
      exact ⟨_, _, _, rfl, rfl⟩
    · rw [hfinish, hfinished]
      exact ⟨_, _, _, rfl, rfl⟩

/-! ## Runs -/

/-- **Building a tree and evaluating it is evaluating at once.** Whatever literals and operations
stand for, every run of requests shows the same of a session as of the calculator that starts with
the values of its trees: after each request the same fault or finished value, and values that are,
entry by entry, those of the trees on the stack. -/
theorem readouts_eq_calculator (I : Interpretation F α) (s : Session F)
    (requests : List (Request F)) :
    s.readouts I requests = (s.stack.calculator I).readouts I requests := by
  induction requests generalizing s with
  | nil => rfl
  | cons request requests ih =>
    obtain ⟨next, reply, events, hstep, hanswer⟩ := s.step_calculated I request
    have hreadouts : s.readouts I (request :: requests)
        = next.readout I reply :: next.readouts I requests := by
      rw [Session.readouts, hstep]
    rw [hreadouts, ih next, Calculator.readouts, hanswer, Session.readout,
      ← Stack.values_calculator]

/-- The product of zero and infinity is a value like any other, while a NaN literal is refused. -/
example : (Calculator.mk [.number (.infinity false), .number (.zero false)]).readouts
    (.floatingPoint .binary64) [.call (.token (.binary .mul)), .call (.token (.literal .nan)), .finish]
      = [⟨.ok none, [.nan]⟩, ⟨.error Cause.nanLiteral.fault, [.nan]⟩, ⟨.ok (some .nan), []⟩] := rfl

end ArithTree
