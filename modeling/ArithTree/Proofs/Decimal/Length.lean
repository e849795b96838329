import Mathlib.Data.Nat.Log
import Mathlib.Tactic.Ring
import ArithTree.Proofs.Decimal.Shortest

/-!
# The length of the shortest decimal

The search for the shortest decimal starts from a coarse grid and stops at the first one with a point
in the interval. A grid that is finer than half the distance to the next magnitude has such a point
(`Number.contains_next`), so that the search stops there at the latest. Up to a number there are at most
`60 · hiddenBit` points on this grid, which bounds the coefficient (`Number.coefficient_shortest_le`).
-/

namespace ArithTree

namespace Interval

variable {I : Interval} {tie : Tie} {v step : Nat}

theorem onGrid?_ne_none (h : I.contains ((v / step + 1) * step)) : I.onGrid? tie v step ≠ none := by
  unfold onGrid?
  rw [h]
  cases I.contains (v / step * step) <;> exact Option.some_ne_none _

/-- A grid with a point of the interval bounds what the search finds. -/
theorem coefficient_coarsest_le (tie : Tie) {j k : Nat} (hjk : j ≤ k)
    (h : I.contains ((v / Nat.pow 10 j + 1) * Nat.pow 10 j)) :
    (I.coarsest tie v k).coefficient ≤ v / Nat.pow 10 j + 1 := by
  have hcoarser {k : Nat} (hjk : j ≤ k) : v / Nat.pow 10 k ≤ v / Nat.pow 10 j :=
    Nat.div_le_div_left (Nat.pow_le_pow_right (by decide) hjk) (Nat.pow_pos (by decide))
  induction k with
  | zero =>
    obtain rfl := Nat.le_zero.mp hjk
    show v ≤ v / 1 + 1
    rw [Nat.div_one]
    exact Nat.le_succ v
  | succ k ih =>
    unfold coarsest
    split
    · rename_i c hc
      have hle := hcoarser hjk
      show c ≤ _
      rcases eq_or_of_onGrid? hc with rfl | rfl
      · exact Nat.le_succ_of_le hle
      · exact Nat.succ_le_succ hle
    · rename_i hnone
      rcases Nat.lt_or_eq_of_le hjk with hlt | rfl
      · exact ih (Nat.le_of_lt_succ hlt)
      · exact absurd hnone (onGrid?_ne_none h)

end Interval

theorem Format.units_lt_spacing (F : Format) (k : Nat) :
    F.units k < 2 * F.hiddenBit * F.spacing k := by
  have hpos := F.hiddenBit_pos
  by_cases hk : k < F.hiddenBit
  · rw [F.units_subnormal hk, F.spacing_of_lt hk]
    omega
  · rw [F.units_normal (Nat.not_lt.mp hk)]
    have hmod := Nat.mod_lt k hpos
    exact Nat.mul_lt_mul_of_pos_right (by omega) (F.spacing_pos k)

namespace Number

variable {F : Format} {x : Number F}

/-- The next point of a grid that is finer than half the distance to the next magnitude. -/
theorem contains_next {step : Nat} (hx : 0 < x.rank) (hpos : 0 < step)
    (hstep : 2 * step < F.spacing x.rank * F.stepsPerUnit) :
    x.roundingInterval.contains ((x.steps / step + 1) * step) := by
  have hdiv := Nat.div_add_mod x.steps step
  have hmod := Nat.mod_lt x.steps hpos
  have hnext : (x.steps / step + 1) * step = step * (x.steps / step) + step := by
    rw [Nat.succ_mul, Nat.mul_comm]
  have hbelow : F.units (x.rank - 1) < x.units := F.units_strictMono (by omega)
  have habove : F.units (x.rank + 1) = x.units + F.spacing x.rank := F.units_succ x.rank
  have hlower : (F.units (x.rank - 1) + x.units) * F.stepsPerUnit ≤ 2 * x.steps := by
    unfold steps
    rw [← Nat.mul_assoc]
    exact Nat.mul_le_mul_right _ (by omega)
  have hupper : (x.units + F.units (x.rank + 1)) * F.stepsPerUnit
      = 2 * x.steps + F.spacing x.rank * F.stepsPerUnit := by
    unfold steps
    rw [habove, ← Nat.add_assoc, ← Nat.two_mul, Nat.add_mul, Nat.mul_assoc]
  refine Interval.contains_of_lt ?_ ?_
  · rw [hnext]
    exact Nat.lt_of_le_of_lt hlower (by omega)
  · rw [hnext]
    exact Nat.lt_of_lt_of_eq (by omega) hupper.symm

/-- A grid that is finer than half the distance to the next magnitude, but not by much, and that
the search looks at. -/
theorem exists_grid (hx : 0 < x.rank) :
    ∃ j, j ≤ x.steps.log2 / 3 + 1 ∧ 2 * Nat.pow 10 j < F.spacing x.rank * F.stepsPerUnit ∧
      x.steps < 60 * F.hiddenBit * Nat.pow 10 j := by
  have hunits : 0 < x.units := F.units_zero ▸ F.units_strictMono hx
  have hle : F.spacing x.rank * F.stepsPerUnit ≤ x.steps :=
    Nat.mul_le_mul_right _ (Nat.le_of_dvd hunits (F.spacing_dvd_units x.rank))
  have hlt : x.steps < 2 * F.hiddenBit * (F.spacing x.rank * F.stepsPerUnit) := by
    rw [← Nat.mul_assoc]
    exact Nat.mul_lt_mul_of_pos_right (F.units_lt_spacing x.rank) F.stepsPerUnit_pos
  have hthree : 3 ≤ F.spacing x.rank * F.stepsPerUnit := by
    have hsteps : 3 ≤ F.stepsPerUnit := by cases F <;> decide +kernel
    exact Nat.le_trans hsteps (Nat.le_mul_of_pos_left _ (F.spacing_pos x.rank))
  generalize F.spacing x.rank * F.stepsPerUnit = w at hle hlt hthree ⊢
  -- A third of the distance instead of half of it, because the bound has to be strict.
  have hlower : 10 ^ Nat.log 10 (w / 3) ≤ w / 3 := Nat.pow_log_le_self 10 (by omega)
  have hupper : w / 3 < 10 ^ Nat.log 10 (w / 3) * 10 := Nat.lt_pow_succ_log_self (by decide : 1 < 10) _
  generalize Nat.log 10 (w / 3) = j at hlower hupper
  refine ⟨j, ?_, ?_, ?_⟩
  · have hpow : 2 ^ (3 * j) ≤ x.steps := by
      calc 2 ^ (3 * j) = 8 ^ j := Nat.pow_mul 2 3 j
        _ ≤ 10 ^ j := Nat.pow_le_pow_left (by decide) j
        _ ≤ x.steps := by omega
    have hlog : 3 * j ≤ x.steps.log2 := (Nat.le_log2 (by omega)).mpr hpow
    omega
  · show 2 * 10 ^ j < w
    omega
  · have hmul : 2 * F.hiddenBit * w ≤ 2 * F.hiddenBit * (30 * 10 ^ j) :=
      Nat.mul_le_mul_left _ (by omega)
    show x.steps < 60 * F.hiddenBit * 10 ^ j
    calc x.steps < 2 * F.hiddenBit * w := hlt
      _ ≤ 2 * F.hiddenBit * (30 * 10 ^ j) := hmul
      _ = 60 * F.hiddenBit * 10 ^ j := by ring

/-- **The shortest decimal has few digits.** -/
theorem coefficient_shortest_le (tie : Tie) (x : Number F) :
    (x.shortest tie).coefficient ≤ 60 * F.hiddenBit := by
  unfold shortest
  by_cases hx : x.isZero
  · rw [if_pos hx]
    exact Nat.zero_le _
  · rw [if_neg hx]
    have hrank : 0 < x.rank := isZero_eq_false_iff.mp (Bool.not_eq_true _ ▸ hx)
    obtain ⟨j, hj, hstep, hsteps⟩ := exists_grid hrank
    have hpos : 0 < Nat.pow 10 j := Nat.pow_pos (by decide)
    have hquotient : x.steps / Nat.pow 10 j < 60 * F.hiddenBit :=
      (Nat.div_lt_iff_lt_mul hpos).mpr hsteps
    have hle := Interval.coefficient_coarsest_le tie hj (contains_next hrank hpos hstep)
    exact Nat.le_trans hle hquotient

end Number

end ArithTree
