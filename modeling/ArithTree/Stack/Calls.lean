import ArithTree.Stack.Program

/-!
# Runs of calls

The owner of a stack calls one action after the other. When a call fails, the run goes on with the
stack that the failing call has left.

* `Stack.transcript`: the calls of a run, each with what came of it.
* `Stack.after`: the stack at the end of a run.
* `Stack.succeeded`: the calls of a run that did not fail, in their order.
-/

namespace ArithTree

variable {F : Format}

/-- A call of the owner of a stack. -/
inductive Call (F : Format) where
  /-- Push a tree. -/
  | push (t : Tree F)
  /-- Carry out a token of a postfix program. -/
  | token (one : Token F)
  deriving DecidableEq

/-- What a call does to a stack. -/
def Call.action : Call F → Action F Unit
  | .push t => .push t
  | .token one => one.action

namespace Stack

/-- The calls of a run with their outcomes. -/
def transcript (s : Stack F) : List (Call F) → List (Call F × Except Cause Unit)
  | [] => []
  | call :: calls => (call, (call.action.on s).1) :: (call.action.on s).2.transcript calls

/-- The stack at the end of a run. -/
def after (s : Stack F) (calls : List (Call F)) : Stack F :=
  calls.foldl (fun s call => (call.action.on s).2) s

/-- The calls of a run that did not fail. -/
def succeeded (s : Stack F) (calls : List (Call F)) : List (Call F) :=
  (s.transcript calls).filterMap fun
    | (call, .ok _) => some call
    | (_, .error _) => none

section Step

variable {s s' : Stack F} {call : Call F} {outcome : Except Cause Unit}

theorem after_cons (h : call.action.on s = (outcome, s')) (calls : List (Call F)) :
    s.after (call :: calls) = s'.after calls := by
  show (call.action.on s).2.after calls = _
  rw [h]

theorem succeeded_cons_of_ok (h : call.action.on s = (.ok (), s')) (calls : List (Call F)) :
    s.succeeded (call :: calls) = call :: s'.succeeded calls := by
  simp only [succeeded, transcript, h, List.filterMap_cons]

theorem succeeded_cons_of_error {cause : Cause} (h : call.action.on s = (.error cause, s'))
    (calls : List (Call F)) : s.succeeded (call :: calls) = s'.succeeded calls := by
  simp only [succeeded, transcript, h, List.filterMap_cons]

end Step

end Stack

end ArithTree
