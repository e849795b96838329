import ArithTree.Stack.Calls

/-!
# The postfix language and the record that a stack keeps

`Stack.code` writes a stack down as a postfix program (`SPEC_FULL.md`, A.3), the programs of its
operands from the bottom to the top. Every call that succeeds writes exactly its own tokens at the end
of that program, and every call that fails leaves the stack alone (`Call.on_ok_or_error`). Both main
results are runs of that one step. Equal programs have the same bits in their literals, because equal
numbers do.

* `ofCode_eq_ok_iff`: a program builds a tree from nothing exactly if it is the program of that tree,
  and on any stack the program of a tree puts that tree on top and cannot fail.
* `code_after`: after any run, failures included, the stack is the one stack whose program is that
  of the first stack followed by the tokens of the calls that succeeded.
-/

namespace ArithTree

variable {F : Format}

/-! ## A stack as a program -/

/-- The programs of the operands, from the bottom of the stack to its top. -/
def Stack.code (s : Stack F) : List (Token F) := s.bottomUp.flatMap Tree.code

/-- The tokens of a call: for a whole tree, its program. -/
def Call.code : Call F → List (Token F)
  | .push t => t.code
  | .token one => [one]

@[simp] theorem Stack.code_empty : (Stack.empty : Stack F).code = [] := rfl

@[simp] theorem Stack.code_push (s : Stack F) (t : Tree F) :
    (s.push t).code = s.code ++ t.code := by
  simp [Stack.code]

/-- The program of a stack builds the stack from nothing. -/
theorem Action.run_stackCode_on (s : Stack F) :
    (Action.run s.code).on .empty = (.ok (), s) := by
  obtain ⟨operands⟩ := s
  induction operands with
  | nil => rfl
  | cons t below ih =>
    have hcode : (Stack.mk (t :: below)).code = (Stack.mk below).code ++ t.code :=
      Stack.code_push ⟨below⟩ t
    rw [hcode, run_append_on_of_ok ih, run_code_on]
    rfl

/-- Different stacks have different programs. -/
theorem Stack.code_injective {s s' : Stack F} (h : s.code = s'.code) : s = s' := by
  have hs := Action.run_stackCode_on s
  rw [h, Action.run_stackCode_on s'] at hs
  exact (congrArg Prod.snd hs).symm

/-! ## One step -/

/-- The stack has the operands that the token takes, and a literal is not NaN. -/
def Token.Applicable (s : Stack F) : Token F → Prop
  | .literal v => v ≠ .nan
  | .binary _ => 2 ≤ s.size
  | .neg => 1 ≤ s.size

/-- A tree can always be pushed. -/
def Call.Applicable (s : Stack F) : Call F → Prop
  | .push _ => True
  | .token one => one.Applicable s

/-- A token that is carried out stands at the end of the new stack's program; one that fails leaves
the stack as it was. -/
theorem Token.on_ok_or_error (token : Token F) (s : Stack F) :
    (token.Applicable s ∧ ∃ s', token.action.on s = (.ok (), s') ∧ s'.code = s.code ++ [token]) ∨
      (¬ token.Applicable s ∧ ∃ cause, token.action.on s = (.error cause, s)) := by
  cases token with
  | literal v =>
    cases v with
    | nan => exact Or.inr ⟨fun h => h rfl, _, Action.pushLiteral_nan_on s⟩
    | number x =>
      have hx : Value.number x ≠ .nan := by
        intro h
        cases h
      exact Or.inl ⟨hx, _, Action.pushLiteral_number_on x s, Stack.code_push s _⟩
  | binary op =>
    obtain rfl | ⟨below, r, rfl⟩ := s.eq_empty_or_push
    · exact Or.inr ⟨Nat.not_succ_le_zero 1, _, Action.binary_on_empty op⟩
    obtain rfl | ⟨below, l, rfl⟩ := below.eq_empty_or_push
    · exact Or.inr ⟨Nat.not_succ_le_self 1, _, Action.binary_on_single op r⟩
    · refine Or.inl ⟨Nat.le_add_left 2 below.size, _, Action.binary_on_push_push op below l r, ?_⟩
      simp [Tree.code]
  | neg =>
    obtain rfl | ⟨below, t, rfl⟩ := s.eq_empty_or_push
    · exact Or.inr ⟨Nat.not_succ_le_zero 0, _, Action.neg_on_empty⟩
    · refine Or.inl ⟨Nat.le_add_left 1 below.size, _, Action.neg_on_push below t, ?_⟩
      simp [Tree.code]

/-- The same for any call. -/
theorem Call.on_ok_or_error (call : Call F) (s : Stack F) :
    (call.Applicable s ∧ ∃ s', call.action.on s = (.ok (), s') ∧ s'.code = s.code ++ call.code) ∨
      (¬ call.Applicable s ∧ ∃ cause, call.action.on s = (.error cause, s)) := by
  cases call with
  | push t => exact Or.inl ⟨trivial, s.push t, rfl, Stack.code_push s t⟩
  | token one => exact one.on_ok_or_error s

/-- Exactly the calls that find what they need succeed. -/
theorem Call.on_eq_ok_iff (call : Call F) (s : Stack F) :
    (call.action.on s).1 = .ok () ↔ call.Applicable s := by
  obtain ⟨happlicable, s', hstep, -⟩ | ⟨happlicable, cause, hstep⟩ := call.on_ok_or_error s
  · rw [hstep]
    exact iff_of_true rfl happlicable
  · rw [hstep]
    refine iff_of_false ?_ happlicable
    intro h
    cases h

/-! ## Programs -/

/-- A program that is carried out to its end stands at the end of the new stack's program. -/
theorem Action.code_of_run_on {program : List (Token F)} {s s' : Stack F}
    (h : (run program).on s = (.ok (), s')) : s'.code = s.code ++ program := by
  induction program generalizing s with
  | nil =>
    obtain rfl : s = s' := congrArg Prod.snd h
    rw [List.append_nil]
  | cons token program ih =>
    obtain ⟨-, middle, hstep, hcode⟩ | ⟨-, cause, hstep⟩ := token.on_ok_or_error s
    · rw [run_cons_on_of_ok hstep] at h
      rw [ih h, hcode, List.append_assoc]
      rfl
    · rw [run_cons_on_of_error hstep] at h
      cases h

theorem Tree.ofCode_code (t : Tree F) : Tree.ofCode t.code = .ok t := by
  unfold Tree.ofCode
  rw [Action.run_code_on]
  rfl

theorem Tree.code_of_ofCode {program : List (Token F)} {t : Tree F}
    (h : Tree.ofCode program = .ok t) : program = t.code := by
  unfold Tree.ofCode at h
  split at h
  · rename_i s hrun
    have hs : s = Stack.empty.push t := Stack.finish_eq_ok_iff.mp h
    have hcode := Action.code_of_run_on hrun
    rw [hs, Stack.code_push, Stack.code_empty] at hcode
    exact hcode.symm
  · cases h

/-- **The postfix language.** Exactly one program builds a given tree from nothing: its own. Carried
out on any stack, that program does not fail and leaves the operands that were there, in their
places, with the tree above them. -/
theorem ofCode_eq_ok_iff (F : Format) :
    (∀ (program : List (Token F)) (t : Tree F),
      Tree.ofCode program = .ok t ↔ program = t.code) ∧
    ∀ (s : Stack F) (t : Tree F), ∃ s',
      (Action.run t.code).on s = (.ok (), s') ∧ s'.bottomUp = s.bottomUp ++ [t] := by
  constructor
  · intro program t
    constructor
    · exact Tree.code_of_ofCode
    · rintro rfl
      exact t.ofCode_code
  · intro s t
    exact ⟨s.push t, Action.run_code_on t s, Stack.bottomUp_push s t⟩

/-! ## Runs that go on after failures -/

/-- What one call writes, all calls of a run write one after the other. -/
theorem Stack.code_after_eq (s : Stack F) (calls : List (Call F)) :
    (s.after calls).code = s.code ++ (s.succeeded calls).flatMap Call.code := by
  induction calls generalizing s with
  | nil => exact (List.append_nil _).symm
  | cons call calls ih =>
    obtain ⟨-, s', hstep, hcode⟩ | ⟨-, cause, hstep⟩ := call.on_ok_or_error s
    · rw [after_cons hstep, succeeded_cons_of_ok hstep, ih, hcode, List.flatMap_cons,
        List.append_assoc]
    · rw [after_cons hstep, succeeded_cons_of_error hstep, ih]

/-- Without its failing calls a run is one that does not fail and ends with the same stack. -/
theorem Stack.run_succeeded (s : Stack F) (calls : List (Call F)) :
    s.after (s.succeeded calls) = s.after calls ∧
      s.succeeded (s.succeeded calls) = s.succeeded calls := by
  induction calls generalizing s with
  | nil => exact ⟨rfl, rfl⟩
  | cons call calls ih =>
    obtain ⟨-, s', hstep, -⟩ | ⟨-, cause, hstep⟩ := call.on_ok_or_error s
    · obtain ⟨hafter, hsucceeded⟩ := ih s'
      rw [succeeded_cons_of_ok hstep, after_cons hstep, after_cons hstep,
        succeeded_cons_of_ok hstep, hafter, hsucceeded]
      exact ⟨rfl, rfl⟩
    · rw [succeeded_cons_of_error hstep, after_cons hstep]
      exact ih s

/-- **A stack is an exact record of the calls that succeeded.** After any run its program is that of
the first stack followed by the tokens of those calls in their order, and no other stack has that
program. A failing call writes nothing: without the failing calls the run is the same. Whatever call
comes next succeeds exactly if it finds what it needs. -/
theorem code_after (s : Stack F) (calls : List (Call F)) :
    (∀ call : Call F,
      ((call.action.on (s.after calls)).1 = .ok () ↔ call.Applicable (s.after calls))) ∧
    (s.after calls).code = s.code ++ (s.succeeded calls).flatMap Call.code ∧
    (∀ s' : Stack F, s'.code = (s.after calls).code ↔ s' = s.after calls) ∧
    s.after (s.succeeded calls) = s.after calls ∧
    s.succeeded (s.succeeded calls) = s.succeeded calls := by
  obtain ⟨hafter, hsucceeded⟩ := s.run_succeeded calls
  refine ⟨fun call => call.on_eq_ok_iff _, s.code_after_eq calls, fun s' => ?_, hafter, hsucceeded⟩
  constructor
  · exact Stack.code_injective
  · rintro rfl
    rfl

end ArithTree
