import ArithTree.Stack.Program
import ArithTree.Trace

/-!
# Sessions with a stack

A session is a stack together with the two things a user can come back to: a copy of the stack and
the last finished tree. `Session.step` carries out one step and gives the next session, the reply
and the recorded events. `finish` empties the stack whatever comes of it; after any other step the
session goes on with the stack that the step left.
-/

namespace ArithTree

variable {F : Format}

/-- A stack with a saved copy and the last finished tree. -/
structure Session (F : Format) where
  stack : Stack F
  saved : Option (Stack F)
  last : Option (Tree F)

/-- What a user can ask of a session. -/
inductive Step (F : Format) where
  /-- Carry out a token of a postfix program. -/
  | token (token : Token F)
  /-- Build a tree and push it. -/
  | push (draft : Draft F)
  /-- Show the tree that finishing would give; the stack stays. -/
  | peek
  /-- Compare the tree that finishing would give with another one; the stack stays. -/
  | same (draft : Draft F)
  /-- Show the sum of the operands, added from the top; the stack stays. -/
  | dump
  /-- Show the stack in debug output. -/
  | debug
  /-- Finish the tree and start over with an empty stack. -/
  | finish
  /-- Push the last finished tree. -/
  | last
  /-- Keep a copy of the stack. -/
  | save
  /-- Go back to the copy of the stack. -/
  | load

/-- What a session answers. -/
inductive Reply (F : Format) where
  | done
  /-- There is nothing to come back to. -/
  | absent
  | refused (fault : Fault)
  | tree (t : Tree F)
  | verdict (equal : Bool)
  | text (s : String)

namespace Reply

/-- The reply to a computation that ends with a reply, or with a fault. -/
def ofOutcome : Except Fault (Reply F) → Reply F
  | .ok r => r
  | .error fault => .refused fault

end Reply

namespace Session

/-- An empty stack, nothing saved and no tree finished. -/
def start : Session F := ⟨.empty, none, none⟩

/-- A step that asks about the session and leaves it as it is. -/
def asking (s : Session F) (question : Traced (Reply F)) : Session F × Reply F × List Event :=
  (s, .ofOutcome question.outcome, question.events)

/-- A step that works on the stack; the session goes on with the stack that the action leaves. -/
def acting (s : Session F) (action : Action F Unit) : Session F × Reply F × List Event :=
  let (outcome, stack) := action.on s.stack
  let traced := Traced.ofExcept outcome
  ({ s with stack }, .ofOutcome (traced.outcome.map fun _ => .done), traced.events)

/-- Carries out one step. -/
def step (s : Session F) : Step F → Session F × Reply F × List Event
  | .token token => s.acting token.action
  | .push draft => s.acting do Action.push (← MonadExcept.ofExcept draft.build)
  | .peek => s.asking do return .tree (← s.stack.tracedFinish)
  | .same draft => s.asking do
    let expected ← .ofExcept draft.build
    let found ← s.stack.tracedFinish
    return .verdict (found.same expected)
  | .dump => s.asking do
    let (outcome, collapsed) := Action.collapse.on s.stack
    Traced.ofExcept outcome
    let sum ← collapsed.tracedFinish
    return .text sum.render
  | .debug => (s, .text s.stack.debug, [])
  | .finish =>
    let result := s.stack.tracedFinish
    match result.outcome with
    | .ok t => ({ s with stack := .empty, last := some t }, .tree t, result.events)
    | .error fault => ({ s with stack := .empty }, .refused fault, result.events)
  | .last =>
    match s.last with
    | some t => ({ s with stack := s.stack.push t }, .done, [])
    | none => (s, .absent, [])
  | .save => ({ s with saved := some s.stack }, .done, [])
  | .load =>
    match s.saved with
    | some stack => ({ s with stack }, .done, [])
    | none => (s, .absent, [])

end Session

end ArithTree
