import ArithTree.Proofs.Binary.Arithmetic
import ArithTree.Proofs.Tree.Leaves
import ArithTree.Tree.Text

/-!
# Trees over integers

A tree over integers is evaluated without rounding as long as no intermediate result has more bits than a
significand. That each operation is exact where it can be is all that this needs of floating-point
arithmetic.

* `Interpretation.integers`, `Tree.integer`: the value of a tree in integer arithmetic.
* `Interpretation.RoundsExactly`: any arithmetic that does not change a result which the format holds.
* `Interpretation.RoundsExactly.interpret`: the induction over trees.
* `Tree.eval_integer`: the value of a tree over integers, and its text.
-/

namespace ArithTree

variable {F : Format}

/-! ## Exact arithmetic -/

/-- The operation without rounding. -/
def Operation.exact {α : Type} [Add α] [Mul α] : Operation → α → α → α
  | .add => (· + ·)
  | .mul => (· * ·)

/-- Integer arithmetic; a literal stands for the largest integer that is not above it. -/
def Interpretation.integers (F : Format) : Interpretation F Int where
  literal x := ⌊x.value⌋
  binary := Operation.exact
  neg := Neg.neg

namespace Tree

/-- The value of the tree in integer arithmetic. -/
def integer (t : Tree F) : Int := t.interpret (.integers F)

/-- The tree itself and all trees below its root. -/
def subtrees : Tree F → List (Tree F)
  | .num x => [.num x]
  | .binary op l r => .binary op l r :: (l.subtrees ++ r.subtrees)
  | .neg e => .neg e :: e.subtrees

theorem self_mem_subtrees (t : Tree F) : t ∈ t.subtrees := by
  cases t <;> exact List.mem_cons_self ..

end Tree

/-! ## Arithmetic that is exact where it can be -/

/-- Arithmetic of the format that gives the exact result wherever the format holds it. What it gives
elsewhere is left open. -/
structure Interpretation.RoundsExactly (I : Interpretation F (Value F)) : Prop where
  literal : ∀ x, I.literal x = .number x
  binary : ∀ (op : Operation) {v w : Value F} {p q : ℚ}, v.IsExactly p → w.IsExactly q →
    F.Holds (op.exact p q) → (I.binary op v w).IsExactly (op.exact p q)
  neg : ∀ {v : Value F} {q : ℚ}, v.IsExactly q → F.Holds (-q) → (I.neg v).IsExactly (-q)

theorem Interpretation.roundsExactly_floatingPoint (F : Format) :
    (floatingPoint F).RoundsExactly where
  literal _ := rfl
  binary op _ _ _ _ hv hw h := by
    cases op with
    | add => exact hv.add hw h
    | mul => exact hv.mul hw h
  neg hv _ := hv.neg

/-- The literal is a finite number and an integer. -/
def Number.IsInteger (x : Number F) : Prop := ∃ i : Int, x.IsExactly i

theorem Tree.integer_num {x : Number F} {i : Int} (hx : x.IsExactly i) :
    (Tree.num x).integer = i := by
  show ⌊x.value⌋ = i
  rw [hx.value_eq, Int.floor_intCast]

theorem Operation.exact_intCast (op : Operation) (i j : Int) :
    ((op.exact i j : Int) : ℚ) = op.exact (i : ℚ) j := by
  cases op with
  | add => exact Int.cast_add i j
  | mul => exact Int.cast_mul i j

/-- **Where all integers on the way fit, nothing is rounded.** -/
theorem Interpretation.RoundsExactly.interpret {I : Interpretation F (Value F)}
    (hI : I.RoundsExactly) {t : Tree F} (hliterals : ∀ x ∈ t.literals, x.IsInteger)
    (hbound : ∀ u ∈ t.subtrees, u.integer.natAbs ≤ F.integerBound) :
    (t.interpret I).IsExactly t.integer := by
  induction t with
  | num x =>
    obtain ⟨i, hi⟩ := hliterals x (List.mem_singleton_self x)
    rw [Tree.integer_num hi]
    exact ⟨x, hI.literal x, hi⟩
  | binary op l r ihl ihr =>
    have hleft := ihl (fun x hx => hliterals x (List.mem_append_left _ hx))
      fun u hu => hbound u (List.mem_cons_of_mem _ (List.mem_append_left _ hu))
    have hright := ihr (fun x hx => hliterals x (List.mem_append_right _ hx))
      fun u hu => hbound u (List.mem_cons_of_mem _ (List.mem_append_right _ hu))
    have hholds := Format.holds_intCast (hbound _ (Tree.self_mem_subtrees _))
    -- The bound at the node itself says that its exact result is held.
    have hvalue : ((Tree.binary op l r).integer : ℚ) = op.exact (l.integer : ℚ) r.integer :=
      op.exact_intCast l.integer r.integer
    rw [hvalue] at hholds ⊢
    exact hI.binary op hleft hright hholds
  | neg e ih =>
    have hoperand := ih hliterals fun u hu => hbound u (List.mem_cons_of_mem _ hu)
    have hholds := Format.holds_intCast (hbound _ (Tree.self_mem_subtrees _))
    have hvalue : ((Tree.neg e).integer : ℚ) = -(e.integer : ℚ) := Int.cast_neg e.integer
    rw [hvalue] at hholds ⊢
    exact hI.neg hoperand hholds

/-! ## Texts of integers -/

theorem toString_intCast (i : Int) :
    toString i = String.ofList ((if i < 0 then ['-'] else []) ++ Decimal.digits i.natAbs) := by
  cases i with
  | ofNat n => rfl
  | negSucc n =>
    rw [if_pos (Int.negSucc_lt_zero n), String.ofList_append]
    rfl

namespace Number

variable {x : Number F} {i : Int}

/-- The magnitude of an integer is written with its digits. -/
theorem IsExactly.magnitudeText_eq (hx : x.IsExactly i) :
    x.magnitudeText = Decimal.digits i.natAbs := by
  have hunits : x.units = i.natAbs * F.unitsPerOne := by
    rw [← natAbs_signedUnits, hx.signedUnits_eq, Int.natAbs_mul, Int.natAbs_natCast]
  rw [magnitudeText_of_isIntegral hx.finite (isIntegral_iff.mpr (Or.inr ⟨i, hx.value_eq⟩)), hunits,
    Nat.mul_div_cancel _ F.unitsPerOne_pos]

/-- A number other than zero has the sign of its value. -/
theorem IsExactly.negative_iff (hx : x.IsExactly i) (hi : i ≠ 0) : x.negative ↔ i < 0 := by
  have hone : (0 : Int) < F.unitsPerOne := by exact_mod_cast F.unitsPerOne_pos
  rw [← signedUnits_neg_iff, hx.signedUnits_eq]
  · exact lt_iff_lt_of_le_iff_le (mul_nonneg_iff_of_pos_right hone)
  · rw [hx.signedUnits_eq]
    exact mul_ne_zero hi hone.ne'

end Number

namespace Tree

/-- **An integer is written as it is**, but the negative zero with its sign. -/
theorem render_num {x : Number F} {i : Int} (hx : x.IsExactly i) :
    (Tree.num x).render = if x = .zero true then "-0" else toString i := by
  rw [render_eq, text, Number.text, hx.magnitudeText_eq]
  by_cases hi : i = 0
  · subst hi
    have hrank : x.rank = 0 := Number.value_eq_zero_iff.mp (hx.value_eq.trans Int.cast_zero)
    rw [← Number.zero_eq_of_rank_eq_zero hrank]
    cases x.negative with
    | true => rfl
    | false => rfl
  · have hne : x ≠ .zero true := by
      rintro rfl
      exact hi (by exact_mod_cast hx.value_eq.symm.trans (Number.isExactly_zero true).value_eq)
    rw [if_neg hne, toString_intCast, Number.signText]
    congr 2
    exact if_congr (hx.negative_iff hi) rfl rfl

/-- **Trees over integers are evaluated exactly.** If the literals of a tree are integers, and none of
its subtrees has a value of more than two to the power of 53 in integer arithmetic, or of 24 for the
narrower format, then its floating-point value is this integer, up to the sign of a zero, and not NaN or
infinite; and a literal of this value is written as the integer, but the negative zero with its
sign. Nothing else is used of floating-point arithmetic than that its operations are exact where they
can be. -/
theorem eval_integer (t : Tree F) (hliterals : ∀ x ∈ t.literals, x.IsInteger)
    (hbound : ∀ u ∈ t.subtrees, u.integer.natAbs ≤ F.integerBound) :
    (∃ x, t.eval = .number x ∧ x.isInfinite = false ∧ x.value = t.integer ∧
      (Tree.num x).render = if x = .zero true then "-0" else toString t.integer) ∧
    (Interpretation.floatingPoint F).RoundsExactly ∧
    ∀ I : Interpretation F (Value F), I.RoundsExactly → (t.interpret I).IsExactly t.integer := by
  have hexact := Interpretation.roundsExactly_floatingPoint F
  obtain ⟨x, hx, hinteger⟩ := hexact.interpret hliterals hbound
  exact ⟨⟨x, hx, hinteger.finite, hinteger.value_eq, render_num hinteger⟩, hexact,
    fun I hI => hI.interpret hliterals hbound⟩

/-- The bound itself is reached in the narrower format. -/
theorem eval_integer_bound :
    let t : Tree .binary32 := .binary .add (.num (.ofInt _ 16777215)) (.num (.ofInt _ 1))
    (∀ x ∈ t.literals, x.IsInteger) ∧
    (∀ u ∈ t.subtrees, u.integer.natAbs ≤ Format.integerBound .binary32) ∧
    ∃ x, t.eval = .number x ∧ x.isInfinite = false ∧ x.value = 16777216 ∧
      (Tree.num x).render = "16777216" := by
  intro t
  have hleft : (Number.ofInt .binary32 16777215).IsExactly (16777215 : Int) :=
    Number.isExactly_ofInt (by decide)
  have hright : (Number.ofInt .binary32 1).IsExactly (1 : Int) := Number.isExactly_ofInt (by decide)
  have hvalue : t.integer = 16777216 :=
    congrArg₂ (· + ·) (integer_num hleft) (integer_num hright)
  have hliterals : ∀ x ∈ t.literals, x.IsInteger := by
    intro x hx
    rcases List.mem_pair.mp hx with rfl | rfl
    · exact ⟨_, hleft⟩
    · exact ⟨_, hright⟩
  have hbound : ∀ u ∈ t.subtrees, u.integer.natAbs ≤ Format.integerBound .binary32 := by
    intro u hu
    rcases List.mem_cons.mp hu with rfl | hu
    · rw [hvalue]
      decide
    · rcases List.mem_pair.mp hu with rfl | rfl
      · rw [integer_num hleft]
        decide
      · rw [integer_num hright]
        decide
  obtain ⟨⟨x, hx, hfinite, hinteger, hrender⟩, -⟩ := eval_integer t hliterals hbound
  rw [hvalue] at hinteger hrender
  have hne : x ≠ .zero true := by
    rintro rfl
    have hzero := hinteger.symm.trans (Number.isExactly_zero true).value_eq
    exact absurd hzero (by decide)
  rw [if_neg hne] at hrender
  exact ⟨hliterals, hbound, x, hx, hfinite, hinteger, hrender⟩

/-- A product with one negative factor and a zero. -/
example : (Tree.binary .mul (.num (.ofInt .binary64 (-3))) (.num (.zero false))).eval =
    .number (.zero true) := by
  decide +kernel

end Tree

end ArithTree
