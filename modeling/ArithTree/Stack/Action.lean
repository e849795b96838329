import ArithTree.Stack

/-!
# Working on a stack in place

An `Action` works on a stack step by step. It gives a result or fails, and either way it leaves a
stack behind, which is the one that the next action finds. What a failing action had taken off
before it failed would stay off; that none of the actions here leaves less than it found is a fact
about each of them (`pushLiteral_nan_on`, `binary_on_empty`, `binary_on_single`, `neg_on_empty`).

An operation takes its operands from the top, the right one first, and pushes the tree it makes of
them (`SPEC_FULL.md`, A.3).
-/

namespace ArithTree

variable {F : Format} {α β : Type}

/-- A computation that works on a stack in place and may fail. -/
abbrev Action (F : Format) := ExceptT Cause (StateM (Stack F))

namespace Action

/-- The outcome of an action on a stack, and the stack that the action leaves. -/
def on (a : Action F α) (s : Stack F) : Except Cause α × Stack F := StateT.run (ExceptT.run a) s

/-- Puts a tree on top. -/
def push (t : Tree F) : Action F Unit := modify (·.push t)

/-- Takes the topmost tree off, if there is one. -/
def pop : Action F (Option (Tree F)) := do
  let s ← get
  set (Stack.mk s.operands.tail)
  return s.operands.head?

/-- Puts a literal on top, which must not be NaN (A.2). -/
def pushLiteral (v : Value F) : Action F Unit := do
  let x ← MonadExcept.ofExcept v.toLiteral
  push (.num x)

/-- Takes off the operands of a binary operation, the left one and the right one. Both are counted
before either is taken, so that a stack with too few is left as it is (A.3). -/
def popTwo (op : Operation) : Action F (Tree F × Tree F) := do
  match (← get).size with
  | 0 => throw (.missingBothOperands op)
  | 1 => throw (.missingLeftOperand op)
  | _ =>
    let right ← pop
    let left ← pop
    match right, left with
    | some right, some left => return (left, right)
    | _, _ => throw (.lostOperands op)

/-- Joins the two topmost trees. -/
def binary (op : Operation) : Action F Unit := do
  let (left, right) ← popTwo op
  push (.binary op left right)

/-- Changes the sign of the topmost tree. -/
def neg : Action F Unit := do
  match ← pop with
  | some operand => push (.neg operand)
  | none => throw .missingOperand

/-- Applies binary operations one after the other. -/
def applyAll (ops : List Operation) : Action F Unit := ops.forM binary

/-- Adds up until a single tree is left. -/
def collapse : Action F Unit := do
  applyAll (List.replicate ((← get).size - 1) .add)

/-! ## Outcome and stack of each action -/

theorem bind_on_of_ok {a : Action F α} {f : α → Action F β} {s s' : Stack F} {x : α}
    (h : a.on s = (.ok x, s')) : (a >>= f).on s = (f x).on s' := by
  show ExceptT.bindCont f (a.on s).1 (a.on s).2 = _
  rw [h]
  rfl

theorem bind_on_of_error {a : Action F α} {f : α → Action F β} {s s' : Stack F} {cause : Cause}
    (h : a.on s = (.error cause, s')) : (a >>= f).on s = (.error cause, s') := by
  show ExceptT.bindCont f (a.on s).1 (a.on s).2 = _
  rw [h]
  rfl

@[simp] theorem on_pure (x : α) (s : Stack F) : (pure x : Action F α).on s = (.ok x, s) := rfl

@[simp] theorem push_on (t : Tree F) (s : Stack F) : (push t).on s = (.ok (), s.push t) := rfl

@[simp] theorem pop_on_empty : (pop : Action F _).on .empty = (.ok none, .empty) := rfl

@[simp] theorem pop_on_push (s : Stack F) (t : Tree F) :
    pop.on (s.push t) = (.ok (some t), s) := rfl

@[simp] theorem pushLiteral_number_on (x : Number F) (s : Stack F) :
    (pushLiteral (.number x)).on s = (.ok (), s.push (.num x)) := rfl

@[simp] theorem pushLiteral_nan_on (s : Stack F) :
    (pushLiteral .nan).on s = (.error .nanLiteral, s) := rfl

@[simp] theorem binary_on_empty (op : Operation) :
    (binary op).on (.empty : Stack F) = (.error (.missingBothOperands op), .empty) := rfl

@[simp] theorem binary_on_single (op : Operation) (t : Tree F) :
    (binary op).on (Stack.empty.push t) =
      (.error (.missingLeftOperand op), Stack.empty.push t) := rfl

@[simp] theorem binary_on_push_push (op : Operation) (s : Stack F) (l r : Tree F) :
    (binary op).on ((s.push l).push r) = (.ok (), s.push (.binary op l r)) := rfl

@[simp] theorem neg_on_empty :
    (neg : Action F Unit).on .empty = (.error .missingOperand, .empty) := rfl

@[simp] theorem neg_on_push (s : Stack F) (t : Tree F) :
    neg.on (s.push t) = (.ok (), s.push (.neg t)) := rfl

end Action

end ArithTree
