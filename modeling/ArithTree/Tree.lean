import ArithTree.Binary.Value

/-!
# Arithmetic expression trees

A tree has numbers at its leaves, sums and products of two trees, and sign changes of one, which are
the four variants of an Expression (`SPEC_FULL.md`, section 3). Leaves are `Number`s, so no tree
holds a NaN, and children cannot be absent (A.2); evaluation may still reach a NaN.

* `Tree.interpret`: the value of a tree under any reading of its literals and operations.
* `Tree.eval`: the reading by floating-point arithmetic.
* `Tree.same`: equality of shape and of the values at the leaves, where `0` and `-0` agree.
* `NodeKind`: the kinds of nodes, by whose names debug output and the data formats know every node.
-/

namespace ArithTree

variable {F : Format} {α : Type}

/-- The operations with two operands. -/
inductive Operation where
  | add
  | mul
  deriving DecidableEq, Repr

/-- An arithmetic expression tree over the numbers of a format. -/
inductive Tree (F : Format) where
  | num (x : Number F)
  | binary (op : Operation) (left right : Tree F)
  | neg (operand : Tree F)
  deriving DecidableEq

namespace Operation

/-- The name that messages use. -/
def name : Operation → String
  | .add => "addition"
  | .mul => "multiplication"

/-- The sign between the operands of a rendered tree. -/
def symbol : Operation → Char
  | .add => '+'
  | .mul => '*'

/-- The operation on floating-point values. -/
def apply : Operation → Value F → Value F → Value F
  | .add => Value.add
  | .mul => Value.mul

end Operation

/-- A reading of literals and operations in some type of values. -/
structure Interpretation (F : Format) (α : Type) where
  literal : Number F → α
  binary : Operation → α → α → α
  neg : α → α

/-- Floating-point arithmetic of the format. -/
def Interpretation.floatingPoint (F : Format) : Interpretation F (Value F) where
  literal := .number
  binary := Operation.apply
  neg := Value.neg

namespace Tree

/-- The value of the tree under a reading, from the leaves up. -/
def interpret (I : Interpretation F α) : Tree F → α
  | .num x => I.literal x
  | .binary op l r => I.binary op (l.interpret I) (r.interpret I)
  | .neg e => I.neg (e.interpret I)

/-- The floating-point value of the tree (`SPEC_FULL.md`, 4.1, evaluate). -/
def eval (t : Tree F) : Value F := t.interpret (Interpretation.floatingPoint F)

/-- Whether the tree is a single literal. -/
def isLiteral : Tree F → Bool
  | .num _ => true
  | _ => false

theorem isLiteral_iff_exists {t : Tree F} : t.isLiteral ↔ ∃ x, t = .num x := by
  cases t with
  | num x => exact iff_of_true rfl ⟨x, rfl⟩
  | binary op l r => exact iff_of_false Bool.false_ne_true fun ⟨_, h⟩ => nomatch h
  | neg e => exact iff_of_false Bool.false_ne_true fun ⟨_, h⟩ => nomatch h

/-- Equal shape, and literals of equal value. -/
def same : Tree F → Tree F → Bool
  | .num x, .num y => x.sameValue y
  | .binary op l r, .binary op' l' r' => op == op' && l.same l' && r.same r'
  | .neg e, .neg e' => e.same e'
  | _, _ => false

@[simp] theorem same_refl (t : Tree F) : t.same t := by
  induction t with
  | num x => simp [same, Number.sameValue]
  | binary op l r ihl ihr => simp [same, ihl, ihr]
  | neg e ih => simp [same, ih]

end Tree

/-! ## Kinds of nodes and their names

Names are case sensitive and have no other spelling: `NodeKind.ofName?` knows exactly the four names
that `NodeKind.name` gives. -/

/-- The kinds of nodes of a tree. -/
inductive NodeKind where
  | num
  | binary (op : Operation)
  | neg
  deriving DecidableEq, Repr

namespace NodeKind

/-- The name of the kind. -/
def name : NodeKind → List Char
  | .num => ['N', 'u', 'm']
  | .binary .add => ['A', 'd', 'd']
  | .binary .mul => ['M', 'u', 'l']
  | .neg => ['N', 'e', 'g']

/-- All kinds, in the order in which messages list them. -/
def all : List NodeKind := [.num, .binary .add, .binary .mul, .neg]

/-- The kind with the given name. -/
def ofName? (s : List Char) : Option NodeKind := all.find? (·.name == s)

theorem ofName?_name (k : NodeKind) : ofName? k.name = some k := by
  rcases k with _ | (_ | _) | _ <;> rfl

end NodeKind

end ArithTree
