import Mathlib.Tactic.Ring
import ArithTree.Proofs.Binary.Ranks
import ArithTree.Proofs.Decimal.Grid

/-!
# What the shortest decimal tells of its number

* `Number.exists_found`: the shortest decimal is a nearest point of its grid that rounds to its number,
  and no point of a coarser grid does.
* `Number.rank_eq_of_contains`: these intervals have no point in common. Neighbours meet in a single
  point, and of the two only the one with the even rank keeps it.
* `Number.shortest_exponent_neg`: a number that is not integral has no whole number in its interval,
  so that its shortest decimal has decimals.
-/

namespace ArithTree

namespace Interval

variable {I : Interval} {n : Nat}

/-! ## Points of an interval -/

theorem contains_of_lt (hl : I.doubledLower < 2 * n) (hu : 2 * n < I.doubledUpper) :
    I.contains n := by
  unfold contains
  by_cases hclosed : I.closed
  · rw [if_pos hclosed, Bool.and_eq_true, decide_eq_true_eq, decide_eq_true_eq]
    exact ⟨Nat.le_of_lt hl, Nat.le_of_lt hu⟩
  · rw [if_neg hclosed, Bool.and_eq_true, decide_eq_true_eq, decide_eq_true_eq]
    exact ⟨hl, hu⟩

theorem le_of_contains (h : I.contains n) : I.doubledLower ≤ 2 * n ∧ 2 * n ≤ I.doubledUpper := by
  unfold contains at h
  by_cases hclosed : I.closed
  · rwa [if_pos hclosed, Bool.and_eq_true, decide_eq_true_eq, decide_eq_true_eq] at h
  · rw [if_neg hclosed, Bool.and_eq_true, decide_eq_true_eq, decide_eq_true_eq] at h
    exact ⟨Nat.le_of_lt h.1, Nat.le_of_lt h.2⟩

/-- An interval with one of its ends as a point is closed. -/
theorem closed_of_contains (h : I.contains n)
    (hend : I.doubledLower = 2 * n ∨ 2 * n = I.doubledUpper) : I.closed := by
  by_cases hclosed : I.closed
  · exact hclosed
  · unfold contains at h
    rw [if_neg hclosed, Bool.and_eq_true, decide_eq_true_eq, decide_eq_true_eq] at h
    omega

end Interval

/-! ## The intervals of the numbers -/

theorem Format.stepsPerUnit_pos (F : Format) : 0 < F.stepsPerUnit :=
  Nat.pow_pos (by decide : 0 < 5)

/-- The value one, in the steps that decimals are counted in. -/
theorem Format.unitsPerOne_mul_stepsPerUnit (F : Format) :
    F.unitsPerOne * F.stepsPerUnit = Nat.pow 10 F.scale :=
  (Nat.mul_pow 2 5 F.scale).symm

namespace Number

variable {F : Format}

/-- A number lies in its own interval. -/
theorem contains_steps {x : Number F} (hx : x.isZero = false) :
    x.roundingInterval.contains x.steps := by
  have hrank : 0 < x.rank := isZero_eq_false_iff.mp hx
  have hpos := F.stepsPerUnit_pos
  have hbelow : F.units (x.rank - 1) < x.units := F.units_strictMono (by omega)
  have habove : x.units < F.units (x.rank + 1) := F.units_strictMono (Nat.lt_succ_self _)
  have hsteps : 2 * x.steps = (x.units + x.units) * F.stepsPerUnit := by
    unfold steps
    rw [← Nat.mul_assoc, Nat.two_mul]
  refine Interval.contains_of_lt ?_ ?_
  · rw [hsteps]
    exact Nat.mul_lt_mul_of_pos_right (by omega) hpos
  · rw [hsteps]
    exact Nat.mul_lt_mul_of_pos_right (by omega) hpos

/-- The grid next to the one that the search starts on has no point in the interval: zero lies below it,
and every other point above. -/
theorem not_contains_coarse {x : Number F} (hx : x.isZero = false) (m : Nat) :
    ¬ x.roundingInterval.contains (m * Nat.pow 10 (x.steps.log2 / 3 + 1 + 1)) := by
  intro h
  have hrank : 0 < x.rank := isZero_eq_false_iff.mp hx
  have hunits : 0 < x.units := F.units_zero ▸ F.units_strictMono hrank
  have hspacing : F.spacing x.rank ≤ x.units := Nat.le_of_dvd hunits (F.spacing_dvd_units x.rank)
  obtain ⟨hlower, hupper⟩ := Interval.le_of_contains h
  rcases Nat.eq_zero_or_pos m with rfl | hm
  · have hpos : 0 < x.roundingInterval.doubledLower :=
      Nat.mul_pos (Nat.add_pos_right _ hunits) F.stepsPerUnit_pos
    omega
  · have hthree : x.roundingInterval.doubledUpper ≤ 3 * x.steps := by
      have habove : F.units (x.rank + 1) = x.units + F.spacing x.rank := F.units_succ x.rank
      have hsum : x.units + F.units (x.rank + 1) ≤ 3 * x.units := by omega
      calc x.roundingInterval.doubledUpper
          = (x.units + F.units (x.rank + 1)) * F.stepsPerUnit := rfl
        _ ≤ 3 * x.units * F.stepsPerUnit := Nat.mul_le_mul_right _ hsum
        _ = 3 * x.steps := Nat.mul_assoc ..
    have hlog : x.steps < Nat.pow 10 (x.steps.log2 / 3 + 1) := by
      calc x.steps < 2 ^ (x.steps.log2 + 1) := Nat.lt_log2_self
        _ ≤ 2 ^ (3 * (x.steps.log2 / 3 + 1)) := Nat.pow_le_pow_right (by decide) (by omega)
        _ = 8 ^ (x.steps.log2 / 3 + 1) := Nat.pow_mul 2 3 _
        _ ≤ 10 ^ (x.steps.log2 / 3 + 1) := Nat.pow_le_pow_left (by decide) _
    have hpoint : 10 * Nat.pow 10 (x.steps.log2 / 3 + 1)
        ≤ m * Nat.pow 10 (x.steps.log2 / 3 + 1 + 1) := by
      calc 10 * 10 ^ (x.steps.log2 / 3 + 1) = 10 ^ (x.steps.log2 / 3 + 1 + 1) := by ring
        _ ≤ m * 10 ^ (x.steps.log2 / 3 + 1 + 1) := Nat.le_mul_of_pos_left _ hm
    omega

/-- The point `c` is the one to take on the grid `10 ^ e`, and the next coarser grid has no point in the
interval of the number. -/
structure Found (x : Number F) (tie : Tie) (c e : Nat) : Prop where
  nearest : x.roundingInterval.NearestMultiple tie x.steps (Nat.pow 10 e) c
  coarser : ∀ m, ¬ x.roundingInterval.contains (m * Nat.pow 10 (e + 1))

/-- **The search finds the shortest decimal.** -/
theorem exists_found (tie : Tie) {x : Number F} (hx : x.isZero = false) :
    ∃ c e : Nat, x.shortest tie = ⟨c, e - F.scale⟩ ∧ x.Found tie c e := by
  obtain ⟨c, e, hsearch, hnearest, hcoarser⟩ :=
    Interval.coarsest_spec tie (contains_steps hx) (x.steps.log2 / 3 + 1)
  refine ⟨c, e, ?_, hnearest, ?_⟩
  · unfold shortest
    rw [if_neg (Bool.eq_false_iff.mp hx), hsearch]
  · rcases hcoarser with rfl | hcoarser
    · exact not_contains_coarse hx
    · exact hcoarser

/-- The last digit is not a zero: without it the point would lie on the coarser grid. -/
theorem Found.mod_ten {x : Number F} {tie : Tie} {c e : Nat} (h : x.Found tie c e) : c % 10 ≠ 0 := by
  intro hmod
  obtain ⟨m, rfl⟩ := Nat.dvd_of_mod_eq_zero hmod
  have hpoint : 10 * m * Nat.pow 10 e = m * Nat.pow 10 (e + 1) := by
    show 10 * m * 10 ^ e = m * 10 ^ (e + 1)
    ring
  exact h.coarser m (hpoint ▸ h.nearest.contains)

/-- The shortest decimal of a number lies in the number's interval. -/
theorem shortest_contains (tie : Tie) {x : Number F} (hx : x.isZero = false) :
    ∃ e : Nat, (x.shortest tie).exponent = e - F.scale ∧
      x.roundingInterval.contains ((x.shortest tie).coefficient * Nat.pow 10 e) := by
  obtain ⟨c, e, hshortest, hfound⟩ := exists_found tie hx
  rw [hshortest]
  exact ⟨e, rfl, hfound.nearest.contains⟩

theorem coefficient_shortest_mod (tie : Tie) {x : Number F} (hx : x.isZero = false) :
    (x.shortest tie).coefficient % 10 ≠ 0 := by
  obtain ⟨c, e, hshortest, hfound⟩ := exists_found tie hx
  rw [hshortest]
  exact hfound.mod_ten

/-- The end of a lower interval is at most the start of a higher one, and they are the same for
neighbours only. -/
theorem doubledUpper_le_doubledLower {x y : Number F} (h : x.rank < y.rank) :
    x.roundingInterval.doubledUpper ≤ y.roundingInterval.doubledLower ∧
      (x.roundingInterval.doubledUpper = y.roundingInterval.doubledLower →
        y.rank = x.rank + 1) := by
  have hx : F.units x.rank ≤ F.units (y.rank - 1) := F.units_strictMono.monotone (by omega)
  have hy : F.units (x.rank + 1) ≤ F.units y.rank := F.units_strictMono.monotone h
  constructor
  · exact Nat.mul_le_mul_right _ (Nat.add_le_add hx hy)
  · intro heq
    have hsum : F.units x.rank + F.units (x.rank + 1) = F.units (y.rank - 1) + F.units y.rank :=
      Nat.eq_of_mul_eq_mul_right F.stepsPerUnit_pos heq
    exact (F.units_strictMono.injective (by omega : F.units (x.rank + 1) = F.units y.rank)).symm

/-- A common point of two intervals would be the end of the lower and the start of the higher one, so
that the ranks would be neighbours and both even. -/
theorem not_rank_lt_of_contains {x y : Number F} {n : Nat} (hx : x.roundingInterval.contains n)
    (hy : y.roundingInterval.contains n) : ¬ x.rank < y.rank := by
  intro h
  obtain ⟨hle, hnext⟩ := doubledUpper_le_doubledLower h
  have hend := (Interval.le_of_contains hx).2
  have hstart := (Interval.le_of_contains hy).1
  have hrank : y.rank = x.rank + 1 := hnext (by omega)
  have hxeven : x.rank % 2 = 0 :=
    beq_iff_eq.mp (Interval.closed_of_contains hx (Or.inr (by omega)))
  have hyeven : y.rank % 2 = 0 :=
    beq_iff_eq.mp (Interval.closed_of_contains hy (Or.inl (by omega)))
  omega

/-- **No value rounds to two magnitudes.** -/
theorem rank_eq_of_contains {x y : Number F} {n : Nat} (hx : x.roundingInterval.contains n)
    (hy : y.roundingInterval.contains n) : x.rank = y.rank := by
  have hxy := not_rank_lt_of_contains hx hy
  have hyx := not_rank_lt_of_contains hy hx
  omega

/-- Numbers with the same shortest decimal have the same magnitude. -/
theorem rank_eq_of_shortest_eq {tie : Tie} {x y : Number F} (hx : x.isZero = false)
    (hy : y.isZero = false) (h : x.shortest tie = y.shortest tie) : x.rank = y.rank := by
  obtain ⟨e, he, hcontains⟩ := shortest_contains tie hx
  obtain ⟨e', he', hcontains'⟩ := shortest_contains tie hy
  rw [h] at he hcontains
  obtain rfl : e = e' := by omega
  exact rank_eq_of_contains hcontains hcontains'

/-! ## Numbers that are not integral -/

theorem isIntegral_eq_false_iff {x : Number F} :
    x.isIntegral = false ↔ x.isInfinite = false ∧ ¬ F.unitsPerOne ∣ x.units := by
  unfold isIntegral
  rw [Bool.or_eq_false_iff, beq_eq_false_iff_ne, Nat.dvd_iff_mod_eq_zero]

theorem isZero_of_not_isIntegral {x : Number F} (hx : x.isIntegral = false) :
    x.isZero = false := by
  obtain ⟨-, hdvd⟩ := isIntegral_eq_false_iff.mp hx
  rw [isZero_eq_false_iff]
  refine Nat.pos_of_ne_zero fun hrank => hdvd ?_
  unfold units
  rw [hrank, F.units_zero]
  exact Nat.dvd_zero _

/-- A whole number that rounds to a magnitude is less than a spacing away from it. -/
theorem close_of_contains_whole {x : Number F} {n : Nat}
    (h : x.roundingInterval.contains (n * Nat.pow 10 F.scale)) :
    n * F.unitsPerOne < x.units + F.spacing x.rank ∧
      x.units < n * F.unitsPerOne + F.spacing x.rank := by
  obtain ⟨hlower, hupper⟩ := Interval.le_of_contains h
  have hpoint : 2 * (n * Nat.pow 10 F.scale) = 2 * (n * F.unitsPerOne) * F.stepsPerUnit := by
    rw [← F.unitsPerOne_mul_stepsPerUnit, ← Nat.mul_assoc n, Nat.mul_assoc 2]
  rw [hpoint] at hlower hupper
  have hstart : F.units (x.rank - 1) + x.units ≤ 2 * (n * F.unitsPerOne) :=
    Nat.le_of_mul_le_mul_right hlower F.stepsPerUnit_pos
  have hend : 2 * (n * F.unitsPerOne) ≤ x.units + F.units (x.rank + 1) :=
    Nat.le_of_mul_le_mul_right hupper F.stepsPerUnit_pos
  have hbelow : x.units ≤ F.units (x.rank - 1) + F.spacing x.rank := F.units_le_pred_add x.rank
  have habove : F.units (x.rank + 1) = x.units + F.spacing x.rank := F.units_succ x.rank
  have hpos := F.spacing_pos x.rank
  omega

/-- **No whole number rounds to a magnitude that is not integral.** -/
theorem not_contains_whole {x : Number F} (hx : ¬ F.unitsPerOne ∣ x.units) (n : Nat) :
    ¬ x.roundingInterval.contains (n * Nat.pow 10 F.scale) := by
  intro hcontains
  obtain ⟨hbelow, habove⟩ := close_of_contains_whole hcontains
  rcases F.spacing_dvd_unitsPerOne_or x.rank with hdvd | hdvd
  · have hwhole : F.spacing x.rank ∣ n * F.unitsPerOne := Nat.dvd_trans hdvd (Nat.dvd_mul_left _ _)
    have heq : n * F.unitsPerOne = x.units := F.eq_units_of_spacing_dvd hwhole hbelow habove
    exact hx ⟨n, by rw [← heq, Nat.mul_comm]⟩
  · exact hx (Nat.dvd_trans hdvd (F.spacing_dvd_units x.rank))

/-- The shortest decimal of a number that is not integral has decimals. -/
theorem shortest_exponent_neg (tie : Tie) {x : Number F} (hx : x.isIntegral = false) :
    (x.shortest tie).exponent < 0 := by
  obtain ⟨e, he, hcontains⟩ := shortest_contains tie (isZero_of_not_isIntegral hx)
  obtain ⟨-, hdvd⟩ := isIntegral_eq_false_iff.mp hx
  by_contra hneg
  obtain ⟨k, rfl⟩ : ∃ k, e = k + F.scale := ⟨e - F.scale, by omega⟩
  refine not_contains_whole hdvd ((x.shortest tie).coefficient * Nat.pow 10 k) ?_
  have hpow : Nat.pow 10 (k + F.scale) = Nat.pow 10 k * Nat.pow 10 F.scale := Nat.pow_add 10 k _
  rwa [Nat.mul_assoc, ← hpow]

end Number

end ArithTree
