import ArithTree.Stack.Action

/-!
# Postfix programs

A program builds a tree in postfix order (`SPEC_FULL.md`, A.3).

* `Token.action`, `Action.run`: the action of one token, and of a whole program.
* `Tree.code`: the postfix program that builds a tree. Carried out on any stack, it puts the tree on
  top (`Action.run_code_on`).
* `Tree.ofCode`: the tree that a program builds from nothing.
-/

namespace ArithTree

variable {F : Format}

/-- A token of a postfix program. -/
inductive Token (F : Format) where
  | literal (v : Value F)
  | binary (op : Operation)
  | neg
  deriving DecidableEq

/-- What a token does to a stack. -/
def Token.action : Token F → Action F Unit
  | .literal v => .pushLiteral v
  | .binary op => .binary op
  | .neg => .neg

/-- The postfix program of a tree. -/
def Tree.code : Tree F → List (Token F)
  | .num x => [.literal (.number x)]
  | .binary op l r => l.code ++ r.code ++ [.binary op]
  | .neg e => e.code ++ [.neg]

/-- Carries out a program, up to its first failure. -/
def Action.run (program : List (Token F)) : Action F Unit := program.forM Token.action

/-- The tree that a program builds, starting on the empty stack. -/
def Tree.ofCode (program : List (Token F)) : Except Cause (Tree F) :=
  match (Action.run program).on .empty with
  | (.ok _, s) => s.finish
  | (.error cause, _) => .error cause

namespace Action

@[simp] theorem run_nil_on (s : Stack F) : (run []).on s = (.ok (), s) := rfl

theorem run_cons_on_of_ok {token : Token F} {program : List (Token F)} {s s' : Stack F}
    (h : token.action.on s = (.ok (), s')) : (run (token :: program)).on s = (run program).on s' :=
  bind_on_of_ok h

theorem run_cons_on_of_error {token : Token F} {program : List (Token F)} {s s' : Stack F}
    {cause : Cause} (h : token.action.on s = (.error cause, s')) :
    (run (token :: program)).on s = (.error cause, s') :=
  bind_on_of_error h

theorem run_append_on_of_ok {p q : List (Token F)} {s s' : Stack F}
    (h : (run p).on s = (.ok (), s')) : (run (p ++ q)).on s = (run q).on s' := by
  induction p generalizing s with
  | nil =>
    obtain rfl : s = s' := congrArg Prod.snd h
    rfl
  | cons token p ih =>
    rw [List.cons_append]
    match hstep : token.action.on s with
    | (.ok _, middle) =>
      rw [run_cons_on_of_ok hstep] at h ⊢
      exact ih h
    | (.error cause, middle) =>
      rw [run_cons_on_of_error hstep] at h
      cases h

/-- The program of a tree pushes the tree and touches nothing below. -/
theorem run_code_on (t : Tree F) (s : Stack F) : (run t.code).on s = (.ok (), s.push t) := by
  induction t generalizing s with
  | num x => rfl
  | binary op l r ihl ihr =>
    rw [Tree.code, List.append_assoc, run_append_on_of_ok (ihl s),
      run_append_on_of_ok (ihr (s.push l))]
    rfl
  | neg e ih =>
    rw [Tree.code, run_append_on_of_ok (ih s)]
    rfl

end Action

end ArithTree
