import ArithTree.Proofs.Binary.Bits
import ArithTree.Tree

/-!
# Trees compared leaf by leaf

Two trees, over one format or over two, have the same shape if they have the same operations in the
same places, and so a leaf of the one for every leaf of the other.

* `Tree.Alike`: the same shape, and some relation between the numbers at corresponding leaves.
* `Tree.Identical`: the same shape and the same bits at the leaves, which is to be the same tree
  (`identical_iff`).
-/

namespace ArithTree.Tree

variable {F G : Format}

/-- The numbers at the leaves, from left to right. -/
def literals : Tree F → List (Number F)
  | .num x => [x]
  | .binary _ l r => l.literals ++ r.literals
  | .neg e => e.literals

/-- The trees have the same shape, and the numbers at corresponding leaves are related. -/
inductive Alike (R : Number F → Number G → Prop) : Tree F → Tree G → Prop
  | num {x : Number F} {y : Number G} (h : R x y) : Alike R (.num x) (.num y)
  | binary (op : Operation) {l r : Tree F} {l' r' : Tree G} (hl : Alike R l l')
      (hr : Alike R r r') : Alike R (.binary op l r) (.binary op l' r')
  | neg {e : Tree F} {e' : Tree G} (h : Alike R e e') : Alike R (.neg e) (.neg e')

/-- The trees have the same shape and the same bits at their leaves. -/
def Identical (a b : Tree F) : Prop := a.Alike (fun x y => x.toBits = y.toBits) b

/-- A tree is alike to itself if its literals are related to themselves. -/
theorem alike_refl {R : Number F → Number F → Prop} {t : Tree F} (h : ∀ x ∈ t.literals, R x x) :
    t.Alike R t := by
  induction t with
  | num x => exact .num (h x (List.mem_singleton_self x))
  | binary op l r ihl ihr =>
    exact .binary op (ihl fun x hx => h x (List.mem_append_left _ hx))
      (ihr fun x hx => h x (List.mem_append_right _ hx))
  | neg e ih => exact .neg (ih h)

/-- A tree is alike to no other tree if its literals are related to no other numbers. -/
theorem Alike.eq {R : Number F → Number F → Prop} {a b : Tree F} (hab : a.Alike R b)
    (h : ∀ x ∈ a.literals, ∀ y, R x y → x = y) : a = b := by
  induction hab with
  | num hxy => rw [h _ (List.mem_singleton_self _) _ hxy]
  | binary op _ _ ihl ihr =>
    rw [ihl fun x hx => h x (List.mem_append_left _ hx),
      ihr fun x hx => h x (List.mem_append_right _ hx)]
  | neg _ ih => rw [ih h]

theorem Identical.refl (t : Tree F) : t.Identical t := alike_refl fun _ _ => rfl

theorem Identical.eq {a b : Tree F} (h : a.Identical b) : a = b :=
  Alike.eq h fun _ _ _ hxy => Number.toBits_injective hxy

theorem identical_iff {a b : Tree F} : a.Identical b ↔ a = b := by
  constructor
  · exact Identical.eq
  · rintro rfl
    exact Identical.refl a

end ArithTree.Tree
