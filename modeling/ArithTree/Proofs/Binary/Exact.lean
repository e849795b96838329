import Mathlib.Algebra.Order.Field.Rat
import Mathlib.Algebra.Order.Ring.Abs
import Mathlib.Tactic.Linarith
import Mathlib.Tactic.Ring
import ArithTree.Binary.Number
import ArithTree.Proofs.Binary.Ranks

/-!
# Exact values, and the numbers nearest to them

The value of a number as a rational, and what it means that a number is the nearest one to a rational,
without a word on how it is found.

* `Format.magnitude`, `Number.value`: the exact magnitude of a rank, and the value of a number.
* `Number.IsNearest`: no number is nearer, and if another one is as near, the rank is even. Infinity
  stands for the power of two that would be next.
* `Number.IsNearest.unique`: of either sign there is one such number at most; a number is the nearest one
  to its own value (`Number.isNearest_of_value_eq`).
* `Number.IsNearest.above`, `Number.IsNearest.below`: the points halfway to other numbers are no nearer to
  zero, and no farther from it.
* `Number.BetweenNeighbours.isNearest`: to be nearest it suffices that the two neighbours are no nearer.
-/

namespace ArithTree

variable {F : Format}

/-- A magnitude with a sign. -/
def withSign (negative : Bool) (q : ℚ) : ℚ := if negative then -q else q

@[simp] theorem withSign_withSign (negative : Bool) (q : ℚ) :
    withSign negative (withSign negative q) = q := by
  cases negative with
  | true => exact neg_neg q
  | false => rfl

@[simp] theorem abs_withSign (negative : Bool) (q : ℚ) : |withSign negative q| = |q| := by
  cases negative with
  | true => exact abs_neg q
  | false => rfl

theorem withSign_not (negative : Bool) (q : ℚ) : withSign (!negative) q = -withSign negative q := by
  cases negative with
  | true => exact (neg_neg q).symm
  | false => rfl

/-- Signs are multiplied apart from magnitudes. -/
theorem withSign_mul_withSign (negative negative' : Bool) (p q : ℚ) :
    withSign negative p * withSign negative' q = withSign (negative != negative') (p * q) := by
  cases negative with
  | true =>
    cases negative' with
    | true => exact neg_mul_neg p q
    | false => exact neg_mul p q
  | false =>
    cases negative' with
    | true => exact mul_neg p q
    | false => rfl

theorem withSign_abs_intCast (i : Int) : withSign (decide (i < 0)) |(i : ℚ)| = i := by
  unfold withSign
  by_cases hneg : i < 0
  · rw [if_pos (decide_eq_true hneg), abs_of_neg (by exact_mod_cast hneg), neg_neg]
  · rw [if_neg (by simpa using hneg), abs_of_nonneg (by exact_mod_cast not_lt.mp hneg)]

/-- The distance of two values of one sign is that of their magnitudes. -/
theorem abs_withSign_sub_withSign (negative : Bool) (p q : ℚ) :
    |withSign negative p - withSign negative q| = |p - q| := by
  cases negative with
  | true =>
    show |-p - -q| = |p - q|
    rw [neg_sub_neg, abs_sub_comm]
  | false => rfl

/-! ## The nearer of two points -/

section Midpoint

variable {r a b : ℚ}

/-- Which of two points is nearer is told by the point halfway between them. -/
theorem abs_sub_le_abs_sub_iff (h : a < b) : |r - a| ≤ |r - b| ↔ 2 * r ≤ a + b := by
  have hpos : 0 < b - a := sub_pos.mpr h
  have hdiff : (r - b) ^ 2 - (r - a) ^ 2 = (b - a) * (a + b - 2 * r) := by ring
  rw [← sq_le_sq, ← sub_nonneg, hdiff, mul_nonneg_iff_of_pos_left hpos, sub_nonneg]

theorem abs_sub_le_abs_sub_iff' (h : a < b) : |r - b| ≤ |r - a| ↔ a + b ≤ 2 * r := by
  have hpos : 0 < b - a := sub_pos.mpr h
  have hdiff : (r - a) ^ 2 - (r - b) ^ 2 = (b - a) * (2 * r - (a + b)) := by ring
  rw [← sq_le_sq, ← sub_nonneg, hdiff, mul_nonneg_iff_of_pos_left hpos, sub_nonneg]

/-- Different points that are equally near have `r` halfway between them. -/
theorem abs_sub_eq_abs_sub_iff (h : a < b) : |r - a| = |r - b| ↔ 2 * r = a + b := by
  rw [le_antisymm_iff, le_antisymm_iff, abs_sub_le_abs_sub_iff h, abs_sub_le_abs_sub_iff' h]

end Midpoint

/-! ## Magnitudes and values -/

namespace Format

/-- The exact magnitude of a rank. That of infinity is the power of two that would be next. -/
def magnitude (F : Format) (k : Nat) : ℚ := F.units k / F.unitsPerOne

theorem unitsPerOne_cast_pos (F : Format) : (0 : ℚ) < F.unitsPerOne := by
  exact_mod_cast F.unitsPerOne_pos

theorem magnitude_mul_unitsPerOne (F : Format) (k : Nat) :
    F.magnitude k * F.unitsPerOne = F.units k :=
  div_mul_cancel₀ _ F.unitsPerOne_cast_pos.ne'

theorem magnitude_nonneg (F : Format) (k : Nat) : 0 ≤ F.magnitude k :=
  div_nonneg (Nat.cast_nonneg _) (Nat.cast_nonneg _)

theorem magnitude_zero (F : Format) : F.magnitude 0 = 0 := by
  unfold magnitude
  rw [F.units_zero, Nat.cast_zero, zero_div]

theorem magnitude_strictMono (F : Format) : StrictMono F.magnitude := fun j k h => by
  have hunits : (F.units j : ℚ) < F.units k := by exact_mod_cast F.units_strictMono h
  exact div_lt_div_of_pos_right hunits F.unitsPerOne_cast_pos

end Format

namespace Number

variable {x y : Number F} {q : ℚ}

/-- The exact magnitude. -/
def magnitude (x : Number F) : ℚ := F.magnitude x.rank

/-- The exact value. -/
def value (x : Number F) : ℚ := withSign x.negative x.magnitude

theorem magnitude_nonneg (x : Number F) : 0 ≤ x.magnitude := F.magnitude_nonneg x.rank

theorem abs_value (x : Number F) : |x.value| = x.magnitude := by
  unfold value
  rw [abs_withSign, abs_of_nonneg x.magnitude_nonneg]

/-- The distance to a value, with the sign of the number moved to the other point. -/
theorem abs_sub_value (x : Number F) (q : ℚ) :
    |q - x.value| = |withSign x.negative q - x.magnitude| := by
  rw [value, ← abs_withSign_sub_withSign x.negative, withSign_withSign]

/-! ## Nearest numbers -/

/-- No number of the format is nearer to `q` than `x`, and the rank of `x` is even if another
magnitude is as near. An even rank is an even significand. -/
structure IsNearest (x : Number F) (q : ℚ) : Prop where
  closest : ∀ y : Number F, |q - x.value| ≤ |q - y.value|
  even : ∀ y : Number F, y.rank ≠ x.rank → |q - y.value| = |q - x.value| → x.rank % 2 = 0

/-- If two magnitudes of one sign were nearest, their ranks would be even, and the rank between them
nearer. -/
theorem IsNearest.not_rank_lt (hx : x.IsNearest q) (hy : y.IsNearest q)
    (hsign : y.negative = x.negative) : ¬ x.rank < y.rank := by
  intro hlt
  have heq : |q - x.value| = |q - y.value| := le_antisymm (hx.closest y) (hy.closest x)
  have hxeven := hx.even y hlt.ne' heq.symm
  have hyeven := hy.even x hlt.ne heq
  let z : Number F := ⟨x.negative, x.rank + 1, hlt.trans_le y.rank_le⟩
  have hxz : x.magnitude < z.magnitude := F.magnitude_strictMono (Nat.lt_succ_self x.rank)
  have hzy : z.magnitude < y.magnitude := F.magnitude_strictMono (show x.rank + 1 < y.rank by omega)
  have hz := hx.closest z
  rw [abs_sub_value, abs_sub_value, hsign, abs_sub_eq_abs_sub_iff (hxz.trans hzy)] at heq
  rw [abs_sub_value, abs_sub_value, abs_sub_le_abs_sub_iff hxz] at hz
  linarith

/-- **Of either sign one number at most is nearest.** -/
theorem IsNearest.unique (hx : x.IsNearest q) (hy : y.IsNearest q)
    (hsign : y.negative = x.negative) : y = x := by
  have hxy := hx.not_rank_lt hy hsign
  have hyx := hy.not_rank_lt hx hsign.symm
  exact Number.ext hsign (by omega)

/-- A number is the nearest one to its own value. -/
theorem isNearest_of_value_eq (h : x.value = q) : x.IsNearest q := by
  subst h
  refine ⟨fun y => ?_, fun y hne heq => absurd ?_ hne⟩
  · rw [sub_self, abs_zero]
    exact abs_nonneg _
  · rw [sub_self, abs_zero, abs_eq_zero, sub_eq_zero] at heq
    refine F.magnitude_strictMono.injective ?_
    show y.magnitude = x.magnitude
    rw [← abs_value, ← abs_value, heq]

/-! ## Neighbours -/

section Neighbours

variable {r : ℚ} {k : Nat}

/-- The distance of a value to a number of its own sign. -/
theorem abs_withSign_sub_value (hsign : x.negative = y.negative) :
    |withSign x.negative r - y.value| = |r - y.magnitude| := by
  rw [hsign]
  exact abs_withSign_sub_withSign y.negative r y.magnitude

/-- A larger rank is no nearer, and as near only if the nearest rank is even. -/
theorem IsNearest.above (hx : x.IsNearest (withSign x.negative r)) (hlt : x.rank < k)
    (hk : k ≤ F.infinityRank) : 2 * r ≤ x.magnitude + F.magnitude k ∧
      (2 * r = x.magnitude + F.magnitude k → x.rank % 2 = 0) := by
  let z : Number F := ⟨x.negative, k, hk⟩
  have hmagnitude : x.magnitude < z.magnitude := F.magnitude_strictMono hlt
  have hsign : x.negative = z.negative := rfl
  have hclosest := hx.closest z
  have heven := hx.even z hlt.ne'
  rw [abs_withSign_sub_value rfl, abs_withSign_sub_value hsign] at hclosest heven
  exact ⟨(abs_sub_le_abs_sub_iff hmagnitude).mp hclosest,
    fun h => heven ((abs_sub_eq_abs_sub_iff hmagnitude).mpr h).symm⟩

/-- A smaller rank is no nearer, and as near only if the nearest rank is even. -/
theorem IsNearest.below (hx : x.IsNearest (withSign x.negative r)) (hlt : k < x.rank) :
    F.magnitude k + x.magnitude ≤ 2 * r ∧
      (2 * r = F.magnitude k + x.magnitude → x.rank % 2 = 0) := by
  let z : Number F := ⟨x.negative, k, hlt.le.trans x.rank_le⟩
  have hmagnitude : z.magnitude < x.magnitude := F.magnitude_strictMono hlt
  have hsign : x.negative = z.negative := rfl
  have hclosest := hx.closest z
  have heven := hx.even z hlt.ne
  rw [abs_withSign_sub_value rfl, abs_withSign_sub_value hsign] at hclosest heven
  exact ⟨(abs_sub_le_abs_sub_iff' hmagnitude).mp hclosest,
    fun h => heven ((abs_sub_eq_abs_sub_iff hmagnitude).mpr h)⟩

/-- A number of the other sign is no nearer than its opposite. -/
theorem abs_sub_magnitude_le (y : Number F) (negative : Bool) (hr : 0 ≤ r) :
    |r - y.magnitude| ≤ |withSign negative r - y.value| := by
  have hreverse := abs_abs_sub_abs_le (withSign negative r) y.value
  rwa [abs_withSign, abs_of_nonneg hr, abs_value] at hreverse

/-- The magnitudes on both sides of the rank are no nearer to `r`, and as near only if the rank is
even. There is none below zero and none above infinity. -/
structure BetweenNeighbours (x : Number F) (r : ℚ) : Prop where
  below : 0 < x.rank → F.magnitude (x.rank - 1) + x.magnitude ≤ 2 * r ∧
    (F.magnitude (x.rank - 1) + x.magnitude = 2 * r → x.rank % 2 = 0)
  above : x.rank < F.infinityRank → 2 * r ≤ x.magnitude + F.magnitude (x.rank + 1) ∧
    (2 * r = x.magnitude + F.magnitude (x.rank + 1) → x.rank % 2 = 0)

/-- Then no magnitude is nearer, and the rank is even if another one is as near. -/
theorem BetweenNeighbours.closest (h : x.BetweenNeighbours r) {j : Nat} (hj : j ≤ F.infinityRank) :
    |r - x.magnitude| ≤ |r - F.magnitude j| ∧
      (j ≠ x.rank → |r - F.magnitude j| = |r - x.magnitude| → x.rank % 2 = 0) := by
  rcases Nat.lt_trichotomy j x.rank with hlt | rfl | hlt
  · obtain ⟨hlower, heven⟩ := h.below (Nat.zero_lt_of_lt hlt)
    have hmagnitude : F.magnitude j < x.magnitude := F.magnitude_strictMono hlt
    have hbelow : F.magnitude j ≤ F.magnitude (x.rank - 1) :=
      F.magnitude_strictMono.monotone (by omega)
    rw [abs_sub_le_abs_sub_iff' hmagnitude, abs_sub_eq_abs_sub_iff hmagnitude]
    exact ⟨by linarith, fun _ heq => heven (by linarith)⟩
  · exact ⟨le_refl _, fun hne => absurd rfl hne⟩
  · obtain ⟨hupper, heven⟩ := h.above (Nat.lt_of_lt_of_le hlt hj)
    have hmagnitude : x.magnitude < F.magnitude j := F.magnitude_strictMono hlt
    have habove : F.magnitude (x.rank + 1) ≤ F.magnitude j :=
      F.magnitude_strictMono.monotone hlt
    rw [abs_sub_le_abs_sub_iff hmagnitude, eq_comm, abs_sub_eq_abs_sub_iff hmagnitude]
    exact ⟨by linarith, fun _ heq => heven (by linarith)⟩

/-- **A number is nearest if its neighbours are no nearer.** Numbers of the other sign are no nearer
either. -/
theorem BetweenNeighbours.isNearest (h : x.BetweenNeighbours r) (hr : 0 ≤ r) :
    x.IsNearest (withSign x.negative r) := by
  have hself : |withSign x.negative r - x.value| = |r - x.magnitude| := abs_withSign_sub_value rfl
  constructor
  · intro y
    rw [hself]
    exact (h.closest y.rank_le).1.trans (y.abs_sub_magnitude_le _ hr)
  · intro y hne heq
    obtain ⟨hle, heven⟩ := h.closest y.rank_le
    rw [hself] at heq
    exact heven hne (le_antisymm (heq ▸ y.abs_sub_magnitude_le _ hr) hle)

end Neighbours

end Number

end ArithTree
