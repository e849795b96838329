import ArithTree.Fault
import ArithTree.Tree.Text

/-!
# Stacks of operands

A `Stack` holds the trees built so far, the topmost first (`SPEC_FULL.md`, A.3). It is changed by the
actions of `ArithTree.Stack.Action`; here are the questions that can be asked of it.
-/

namespace ArithTree

variable {F : Format}

/-- Operands awaiting an operation, the topmost first. -/
structure Stack (F : Format) where
  operands : List (Tree F)
  deriving DecidableEq

namespace Stack

/-- The number of operands that a stack holds before it has to grow. -/
def inlineOperands : Nat := 16

/-- The stack without operands. -/
def empty : Stack F := ⟨[]⟩

/-- The number of operands. -/
def size (s : Stack F) : Nat := s.operands.length

def isEmpty (s : Stack F) : Bool := s.operands.isEmpty

/-- The stack with a tree on top. -/
def push (s : Stack F) (t : Tree F) : Stack F := ⟨t :: s.operands⟩

/-- The operands from the bottom of the stack to its top. -/
def bottomUp (s : Stack F) : List (Tree F) := s.operands.reverse

/-- The tree that has been built, if there is exactly one (A.3, finish). -/
def finish (s : Stack F) : Except Cause (Tree F) :=
  match s.operands with
  | [] => .error .emptyStack
  | [t] => .ok t
  | operands => .error (.unfinished operands.length)

/-- The stack in debug output, its lowest operand first. -/
def debug (s : Stack F) : String :=
  "ExprStack \x7b operands: [" ++ ", ".intercalate (s.bottomUp.map Tree.debug) ++ "] \x7d"

@[simp] theorem size_push (s : Stack F) (t : Tree F) : (s.push t).size = s.size + 1 := rfl

@[simp] theorem bottomUp_empty : (empty : Stack F).bottomUp = [] := rfl

@[simp] theorem bottomUp_push (s : Stack F) (t : Tree F) :
    (s.push t).bottomUp = s.bottomUp ++ [t] := List.reverse_cons

@[simp] theorem finish_push_empty (t : Tree F) : (empty.push t).finish = .ok t := rfl

/-- Every stack is empty, or has a tree on top of another stack. -/
theorem eq_empty_or_push (s : Stack F) :
    s = empty ∨ ∃ (below : Stack F) (t : Tree F), s = below.push t := by
  obtain ⟨operands⟩ := s
  cases operands with
  | nil => exact Or.inl rfl
  | cons t below => exact Or.inr ⟨⟨below⟩, t, rfl⟩

/-- Only the stack with a single operand can be finished. -/
theorem finish_eq_ok_iff {s : Stack F} {t : Tree F} : s.finish = .ok t ↔ s = empty.push t := by
  obtain ⟨operands⟩ := s
  match operands with
  | [] => simp [finish, empty, push]
  | [u] => simp [finish, empty, push]
  | u :: v :: below => simp [finish, empty, push]

end Stack

end ArithTree
