import ArithTree.Proofs.Stack.Counting
import ArithTree.Proofs.Stack.Recording

/-!
# Events and outcomes

A session records an event for every fault that it reports and for every tree that it finishes, and
nothing else (`SPEC_FULL.md`, A.8). Finishing may happen on a copy of the stack, so it is said here of
every step which tree it finishes (`Session.finished?`), whatever becomes of the tree.

* `Session.Accounted`: the three ways a step can go, each with its events.
* `Session.step_accounted`: every step goes one of them.
* `Session.run_accounted`: so the events of a run are, in order, its faults and its finished trees.
* `step_events`: both of it, for events that are recorded where they happen (`Session.recordedStep`).
-/

namespace ArithTree

variable {F : Format}

/-! ## What there is to be recorded -/

/-- The message of a fault that was raised. -/
def Event.message? : Event → Option String
  | .raised fault => some fault.message
  | .finished _ => none

/-- Whether a tree that was finished is a literal. -/
def Event.literal? : Event → Option Bool
  | .raised _ => none
  | .finished literal => some literal

/-- The text of the event of a finished tree, by the root of the tree. -/
theorem Event.text_finished (t : Tree F) :
    (∃ x, t = .num x) ∧
        [finished t.isLiteral].map Event.text = ["TRACE finished tree, literal true"] ∨
      (∀ x, t ≠ .num x) ∧
        [finished t.isLiteral].map Event.text = ["TRACE finished tree, literal false"] := by
  cases t with
  | num x => exact Or.inl ⟨⟨x, rfl⟩, rfl⟩
  | binary op l r => exact Or.inr ⟨nofun, rfl⟩
  | neg e => exact Or.inr ⟨nofun, rfl⟩

/-- The replies that show a tree, or what has been made of it. -/
inductive Reply.MadeOf (t : Tree F) : Reply F → Prop
  | tree : MadeOf t (.tree t)
  | verdict (other : Tree F) : MadeOf t (.verdict (t.same other))
  | text : MadeOf t (.text t.render)

/-- The replies that are no fault and show no tree. -/
def Reply.Plain (reply : Reply F) : Prop := reply.refusal? = none ∧ ∀ t, reply ≠ .tree t

theorem Reply.MadeOf.refusal? {t : Tree F} {reply : Reply F} (h : reply.MadeOf t) :
    reply.refusal? = none := by
  cases h with
  | tree => rfl
  | verdict other => rfl
  | text => rfl

namespace Session

/-- The tree that a step finishes, on the stack or on a copy of it, if it does. A tree for comparison is
built before, and sums are added up before. -/
def finished? (s : Session F) : Step F → Option (Tree F)
  | .finish => s.stack.finish.toOption
  | .peek => s.stack.finish.toOption
  | .same draft => draft.build.toOption.bind fun _ => s.stack.finish.toOption
  | .dump => (Action.collapse.on s.stack).1.toOption.bind fun _ =>
    (Action.collapse.on s.stack).2.finish.toOption
  | _ => none

/-- The replies to the steps of a run, with the events of each. -/
def transcript (s : Session F) : List (Step F) → List (Reply F × List Event)
  | [] => []
  | step :: steps =>
    let (next, reply, events) := s.step step
    (reply, events) :: next.transcript steps

/-- The trees that are finished in a run. -/
def finishedTrees (s : Session F) : List (Step F) → List (Tree F)
  | [] => []
  | step :: steps => (s.finished? step).toList ++ (s.step step).1.finishedTrees steps

/-! ## One step -/

/-- How a step can go, by the tree that it finishes, its reply and its events: it is refused for one
fault, it finishes a tree, or neither. -/
inductive Accounted : Option (Tree F) → Reply F → List Event → Prop
  | refused (fault : Fault) : Accounted none (.refused fault) [.raised fault]
  | finished {t : Tree F} {reply : Reply F} (h : reply.MadeOf t) :
      Accounted (some t) reply [.finished t.isLiteral]
  | silent {reply : Reply F} (h : reply.Plain) : Accounted none reply []

/-- The same of a question to a session. -/
def Answered (finished : Option (Tree F)) (question : Traced (Reply F)) : Prop :=
  Accounted finished (.ofOutcome question.outcome) question.events

theorem accounted_done : Accounted (F := F) none .done [] := .silent ⟨rfl, nofun⟩

theorem accounted_absent : Accounted (F := F) none .absent [] := .silent ⟨rfl, nofun⟩

theorem accounted_text (text : String) : Accounted (F := F) none (.text text) [] :=
  .silent ⟨rfl, nofun⟩

/-- Working on the stack finishes no tree. -/
theorem acting_accounted (s : Session F) (action : Action F Unit) :
    Accounted none (s.acting action).2.1 (s.acting action).2.2 := by
  unfold acting
  match action.on s.stack with
  | (.ok _, _) => exact accounted_done
  | (.error cause, _) => exact .refused cause.fault

/-- Finishing a tree, and replying with what is made of it. -/
theorem answered_finish (stack : Stack F) (reply : Tree F → Reply F)
    (h : ∀ t, (reply t).MadeOf t) :
    Answered stack.finish.toOption (do return reply (← stack.tracedFinish)) := by
  unfold Stack.tracedFinish
  cases stack.finish with
  | ok t => exact .finished (h t)
  | error cause => exact .refused cause.fault

/-- What can fail before is the only fault if it does. -/
theorem answered_bind {α : Type} {finished : α → Option (Tree F)} {rest : α → Traced (Reply F)}
    (outcome : Except Cause α) (h : ∀ x, Answered (finished x) (rest x)) :
    Answered (outcome.toOption.bind finished) (Traced.ofExcept outcome >>= rest) := by
  cases outcome with
  | ok x => exact h x
  | error cause => exact .refused cause.fault

/-- **Every step is accounted for by its events.** -/
theorem step_accounted (s : Session F) (step : Step F) :
    Accounted (s.finished? step) (s.step step).2.1 (s.step step).2.2 := by
  cases step with
  | token token => exact s.acting_accounted token.action
  | push draft => exact s.acting_accounted (MonadExcept.ofExcept draft.build >>= Action.push)
  | peek => exact answered_finish s.stack .tree fun _ => .tree
  | same draft =>
    exact answered_bind draft.build fun expected =>
      answered_finish s.stack (fun found => .verdict (found.same expected)) fun _ => .verdict expected
  | dump =>
    exact answered_bind (Action.collapse.on s.stack).1 fun _ =>
      answered_finish (Action.collapse.on s.stack).2 (fun sum => .text sum.render) fun _ => .text
  | debug => exact accounted_text s.stack.debug
  | finish =>
    unfold finished? Session.step Stack.tracedFinish
    cases s.stack.finish with
    | ok t => exact .finished .tree
    | error cause => exact .refused cause.fault
  | last =>
    unfold Session.step
    cases s.last with
    | some t => exact accounted_done
    | none => exact accounted_absent
  | save => exact accounted_done
  | load =>
    unfold Session.step
    cases s.saved with
    | some stack => exact accounted_done
    | none => exact accounted_absent

/-! ## Runs -/

theorem transcript_cons (s : Session F) (step : Step F) (steps : List (Step F)) :
    s.transcript (step :: steps) = (s.step step).2 :: (s.step step).1.transcript steps := rfl

theorem finishedTrees_cons (s : Session F) (step : Step F) (steps : List (Step F)) :
    s.finishedTrees (step :: steps) =
      (s.finished? step).toList ++ (s.step step).1.finishedTrees steps := rfl

/-- What is recorded of one step. -/
theorem Accounted.events {finished : Option (Tree F)} {reply : Reply F} {events : List Event}
    (h : Accounted finished reply events) :
    events.filterMap Event.message? = reply.refusal?.toList ∧
      events.filterMap Event.literal? = finished.toList.map Tree.isLiteral := by
  cases h with
  | refused fault => exact ⟨rfl, rfl⟩
  | finished h =>
    rw [h.refusal?]
    exact ⟨rfl, rfl⟩
  | silent h =>
    rw [h.1]
    exact ⟨rfl, rfl⟩

/-- **Every run is accounted for by its events.** -/
theorem run_accounted (s : Session F) (steps : List (Step F)) :
    ((s.transcript steps).flatMap Prod.snd).filterMap Event.message? =
        (s.transcript steps).filterMap (·.1.refusal?) ∧
      ((s.transcript steps).flatMap Prod.snd).filterMap Event.literal? =
        (s.finishedTrees steps).map Tree.isLiteral := by
  induction steps generalizing s with
  | nil => exact ⟨rfl, rfl⟩
  | cons step steps ih =>
    obtain ⟨hmessages, hliterals⟩ := (s.step_accounted step).events
    obtain ⟨ihmessages, ihliterals⟩ := ih (s.step step).1
    rw [transcript_cons, finishedTrees_cons, List.flatMap_cons, List.filterMap_append,
      List.filterMap_append, List.map_append, hmessages, hliterals, ihmessages, ihliterals]
    refine ⟨?_, rfl⟩
    rw [List.filterMap_cons]
    cases (s.step step).2.1.refusal? with
    | none => rfl
    | some message => rfl

end Session

/-- **Events correspond one to one to outcomes.** With every event recorded where it happens, a session
does the same as without. A step that is refused has one event, which names the fault of the reply; a step
that finishes a tree has one event, which says whether the root of this tree is a literal, and replies with
the tree or with what was made of it; any other step has none. So the faults in the events of a run are
those of its replies in their order, and the other events stand one for each finished tree. -/
theorem step_events (F : Format) :
    (∀ (s : Session F) (step : Step F), s.recordedStep step = s.step step) ∧
    (∀ (s : Session F) (step : Step F), ∃ next reply events, s.step step = (next, reply, events) ∧
      ((∃ fault, reply = .refused fault ∧ s.finished? step = none ∧
          events.map Event.text = ["DEBUG invariant violation: " ++ fault.message]) ∨
        (∃ t, reply.MadeOf t ∧ s.finished? step = some t ∧
          ((∃ x, t = .num x) ∧ events.map Event.text = ["TRACE finished tree, literal true"] ∨
            (∀ x, t ≠ .num x) ∧ events.map Event.text = ["TRACE finished tree, literal false"])) ∨
        (reply.Plain ∧ s.finished? step = none ∧ events = []))) ∧
    (∀ (s : Session F) (steps : List (Step F)),
      ((s.transcript steps).flatMap Prod.snd).filterMap Event.message? =
          (s.transcript steps).filterMap (·.1.refusal?) ∧
        ((s.transcript steps).flatMap Prod.snd).filterMap Event.literal? =
          (s.finishedTrees steps).map Tree.isLiteral) ∧
    ∀ t : Tree F, t.isLiteral ↔ ∃ x, t = .num x := by
  refine ⟨Session.recordedStep_eq, fun s step => ?_, Session.run_accounted,
    fun _ => Tree.isLiteral_iff_exists⟩
  have haccounted := s.step_accounted step
  generalize s.step step = result, s.finished? step = finished at haccounted
  obtain ⟨next, reply, events⟩ := result
  refine ⟨next, reply, events, rfl, ?_⟩
  cases haccounted with
  | refused fault => exact Or.inl ⟨fault, rfl, rfl, rfl⟩
  | finished h => exact Or.inr (Or.inl ⟨_, h, rfl, Event.text_finished _⟩)
  | silent h => exact Or.inr (Or.inr ⟨h, rfl, rfl⟩)

/-- A tree with two NaNs is refused once, and before the stack is found to be empty. -/
example : ((Session.start : Session .binary32).step
    (.same (.binary .add (.num .nan) (.num .nan)))).2.2 = [.raised Cause.nanLiteral.fault] := rfl

end ArithTree
