import ArithTree.Proofs.Binary.Zeros
import ArithTree.Proofs.Tree.Rendering

/-!
# Trees of equal value at the leaves

Trees are compared by shape and by the values at their leaves (`Tree.same`). This does not tell `0` from
`-0`, and evaluation does so by the sign of a zero only, but their texts are different.

* `Tree.same_iff_alike`: what is compared, as a relation between corresponding leaves.
* `Tree.Alike.interpret`: readings that respect a relation at the leaves respect it at the root.
* `Tree.Alike.iff_forall_mem_zip`: trees of one shape are compared by listing their leaves.
* `same_congruence`: equality is an equivalence that evaluation respects, and equal trees have
  different texts exactly if there are zeros of opposite sign at corresponding leaves.
-/

namespace ArithTree

variable {F G H : Format} {α β : Type}

namespace Tree

/-! ## Corresponding leaves -/

theorem alike_num_iff {R : Number F → Number G → Prop} {x : Number F} {y : Number G} :
    (num x).Alike R (num y) ↔ R x y :=
  ⟨fun | .num h => h, .num⟩

theorem alike_binary_iff {R : Number F → Number G → Prop} {op op' : Operation} {l r : Tree F}
    {l' r' : Tree G} :
    (binary op l r).Alike R (binary op' l' r') ↔ op = op' ∧ l.Alike R l' ∧ r.Alike R r' := by
  constructor
  · intro h
    cases h with
    | binary _ hl hr => exact ⟨rfl, hl, hr⟩
  · rintro ⟨rfl, hl, hr⟩
    exact .binary op hl hr

theorem alike_neg_iff {R : Number F → Number G → Prop} {e : Tree F} {e' : Tree G} :
    (neg e).Alike R (neg e') ↔ e.Alike R e' :=
  ⟨fun | .neg h => h, .neg⟩

namespace Alike

variable {R : Number F → Number G → Prop} {a : Tree F} {b : Tree G}

theorem symm {S : Number G → Number F → Prop} (h : a.Alike R b) (hRS : ∀ {x y}, R x y → S y x) :
    b.Alike S a := by
  induction h with
  | num h => exact .num (hRS h)
  | binary op _ _ ihl ihr => exact .binary op ihl ihr
  | neg _ ih => exact .neg ih

theorem trans {S : Number G → Number H → Prop} {T : Number F → Number H → Prop} {c : Tree H}
    (hab : a.Alike R b) (hbc : b.Alike S c) (hRST : ∀ {x y z}, R x y → S y z → T x z) :
    a.Alike T c := by
  induction hab generalizing c with
  | num hxy =>
    cases hbc with
    | num hyz => exact .num (hRST hxy hyz)
  | binary op _ _ ihl ihr =>
    cases hbc with
    | binary _ hl hr => exact .binary op (ihl hl) (ihr hr)
  | neg _ ih =>
    cases hbc with
    | neg h => exact .neg (ih h)

/-- **What two readings do to related values they do to alike trees.** The induction is on both trees
at once, since neither tree alone says what stands at the leaves of the other. -/
theorem interpret {S : α → β → Prop} {I : Interpretation F α} {J : Interpretation G β}
    (hliteral : ∀ {x y}, R x y → S (I.literal x) (J.literal y))
    (hbinary : ∀ op {v v' w w'}, S v v' → S w w' → S (I.binary op v w) (J.binary op v' w'))
    (hneg : ∀ {v v'}, S v v' → S (I.neg v) (J.neg v')) (h : a.Alike R b) :
    S (a.interpret I) (b.interpret J) := by
  induction h with
  | num h => exact hliteral h
  | binary op _ _ ihl ihr => exact hbinary op ihl ihr
  | neg _ ih => exact hneg ih

theorem length_literals (h : a.Alike R b) : a.literals.length = b.literals.length := by
  induction h with
  | num => rfl
  | binary op _ _ ihl ihr =>
    unfold literals
    rw [List.length_append, List.length_append, ihl, ihr]
  | neg _ ih => exact ih

/-- Trees that have the same shape are related if the leaves in the same places are. -/
theorem iff_forall_mem_zip {S : Number F → Number G → Prop} (h : a.Alike R b) :
    a.Alike S b ↔ ∀ x y, (x, y) ∈ a.literals.zip b.literals → S x y := by
  induction h with
  | num => simp [alike_num_iff, literals]
  | binary op hl _ ihl ihr =>
    unfold literals
    rw [alike_binary_iff, ihl, ihr, List.zip_append hl.length_literals]
    simp only [true_and, List.mem_append, or_imp, forall_and]
  | neg _ ih => rw [alike_neg_iff, ih, literals, literals]

end Alike

/-! ## Equality of trees -/

/-- What equality of trees compares. -/
theorem same_iff_alike {a b : Tree F} : a.same b ↔ a.Alike (fun x y => x.sameValue y) b := by
  induction a generalizing b with
  | num x =>
    cases b with
    | num y => rw [alike_num_iff, same]
    | binary op l r => exact iff_of_false Bool.false_ne_true fun h => by cases h
    | neg e => exact iff_of_false Bool.false_ne_true fun h => by cases h
  | binary op l r ihl ihr =>
    cases b with
    | num y => exact iff_of_false Bool.false_ne_true fun h => by cases h
    | binary op' l' r' =>
      rw [alike_binary_iff, ← ihl, ← ihr, same, Bool.and_eq_true, Bool.and_eq_true, beq_iff_eq,
        and_assoc]
    | neg e => exact iff_of_false Bool.false_ne_true fun h => by cases h
  | neg e ih =>
    cases b with
    | num y => exact iff_of_false Bool.false_ne_true fun h => by cases h
    | binary op l r => exact iff_of_false Bool.false_ne_true fun h => by cases h
    | neg e' => rw [alike_neg_iff, ← ih, same]

theorem same_equivalence : Equivalence fun a b : Tree F => a.same b where
  refl := same_refl
  symm h := by
    rw [same_iff_alike] at h ⊢
    exact h.symm Number.sameValue_symm
  trans hab hbc := by
    rw [same_iff_alike] at hab hbc ⊢
    exact hab.trans hbc Number.sameValue_trans

/-- Equal trees differ by the signs of zeros only. -/
theorem same_iff_bits {a b : Tree F} :
    a.same b ↔ a.Alike (fun x y => x.toBits = y.toBits ∨ x.isZero ∧ y.isZero) b := by
  have hnumber (x y : Number F) :
      x.sameValue y ↔ x.toBits = y.toBits ∨ x.isZero ∧ y.isZero := by
    rw [Number.sameValue_iff_eq_or]
    exact or_congr_left ⟨congrArg Number.toBits, Number.toBits_injective⟩
  simp only [same_iff_alike, hnumber]

/-- Equal trees have values that agree. -/
theorem agrees_eval_of_same {a b : Tree F} (h : a.same b) : a.eval.Agrees b.eval := by
  refine (same_iff_alike.mp h).interpret .number (fun op => ?_) .neg
  cases op with
  | add => exact .add
  | mul => exact .mul

/-- Equal trees that are different have zeros of opposite sign at corresponding leaves. -/
theorem ne_iff_of_same {a b : Tree F} (h : a.same b) :
    a ≠ b ↔ ∃ negative, (Number.zero negative, Number.zero !negative) ∈
      a.literals.zip b.literals := by
  have halike := same_iff_alike.mp h
  have hvalue := halike.iff_forall_mem_zip.mp halike
  have hne (x y : Number F) (hmem : (x, y) ∈ a.literals.zip b.literals) :=
    Number.ne_iff_of_sameValue (hvalue x y hmem)
  rw [ne_eq, ← identical_iff, Identical, halike.iff_forall_mem_zip]
  constructor
  · intro hbits
    push Not at hbits
    obtain ⟨x, y, hmem, hxy⟩ := hbits
    obtain ⟨negative, rfl, rfl⟩ := (hne x y hmem).mp fun heq => hxy (congrArg Number.toBits heq)
    exact ⟨negative, hmem⟩
  · rintro ⟨negative, hmem⟩ hbits
    exact (hne _ _ hmem).mpr ⟨negative, rfl, rfl⟩ (Number.toBits_injective (hbits _ _ hmem))

end Tree

/-- **Equality of trees is an equivalence, and evaluation respects it.** Trees are equal exactly if
they have the same shape and at corresponding leaves the same bits or zeros of either sign. Equal
trees are evaluated to numbers of the same value, or both to NaN. They have different texts exactly
if somewhere one has the zero of one sign and the other that of the other. -/
theorem same_congruence (F : Format) :
    Equivalence (fun a b : Tree F => a.same b) ∧
    (∀ a b : Tree F,
      a.same b ↔ a.Alike (fun x y => x.toBits = y.toBits ∨ x.isZero ∧ y.isZero) b) ∧
    (∀ a b : Tree F, a.same b → a.eval.Agrees b.eval) ∧
    ∀ a b : Tree F, a.same b → (a.render ≠ b.render ↔
      ∃ negative, (Number.zero negative, Number.zero !negative) ∈ a.literals.zip b.literals) := by
  refine ⟨Tree.same_equivalence, fun a b => Tree.same_iff_bits,
    fun a b h => Tree.agrees_eval_of_same h, fun a b h => ?_⟩
  rw [Tree.render_injective.ne_iff]
  exact Tree.ne_iff_of_same h

/-- A zero and the sign change of the zero of the opposite sign, added. -/
def Tree.twoZeros (negative : Bool) : Tree F :=
  .binary .add (.num (.zero negative)) (.neg (.num (.zero !negative)))

/-- Zeros differ at both leaves, and the sums are zeros of opposite sign. -/
theorem same_congruence_twoZeros :
    let a : Tree .binary32 := .twoZeros false
    let b : Tree .binary32 := .twoZeros true
    a.same b ∧ a.eval.Agrees b.eval ∧ a.eval ≠ b.eval ∧ a.render ≠ b.render := by
  intro a b
  obtain ⟨-, -, heval, hrender⟩ := same_congruence .binary32
  have hsame : a.same b := rfl
  exact ⟨hsame, heval a b hsame, by decide,
    (hrender a b hsame).mpr ⟨false, List.mem_cons_self ..⟩⟩

end ArithTree
