import ArithTree.Proofs.Binary.Exact
import ArithTree.Proofs.Decimal.Shortest

/-!
# The interval of a number, by exact values

The search for the shortest decimal compares natural numbers of steps. Here the interval of a number is
the set of the rationals that the number is nearest to.

* `Interval.Covers`: the rational points of an interval; the natural ones are those that it contains.
* `Number.isNearest_iff_covers`: a finite number is nearest to exactly the points of its interval, taken
  with its sign.
-/

namespace ArithTree

namespace Interval

variable {I : Interval} {p q r : ℚ} {m n : Nat}

/-! ## Rational points -/

/-- A rational point of the interval. -/
structure Covers (I : Interval) (p : ℚ) : Prop where
  lower : I.doubledLower ≤ 2 * p
  upper : 2 * p ≤ I.doubledUpper
  closed : 2 * p = I.doubledLower ∨ 2 * p = I.doubledUpper → I.closed

theorem contains_iff_covers : I.contains n ↔ I.Covers n := by
  constructor
  · intro h
    obtain ⟨hlower, hupper⟩ := le_of_contains h
    refine ⟨by exact_mod_cast hlower, by exact_mod_cast hupper, fun hend => ?_⟩
    refine closed_of_contains h (hend.imp (fun heq => ?_) fun heq => ?_)
    · exact_mod_cast heq.symm
    · exact_mod_cast heq
  · rintro ⟨hlower, hupper, hclosed⟩
    have hlower : I.doubledLower ≤ 2 * n := by exact_mod_cast hlower
    have hupper : 2 * n ≤ I.doubledUpper := by exact_mod_cast hupper
    unfold contains
    by_cases hc : I.closed
    · rw [if_pos hc, Bool.and_eq_true, decide_eq_true_eq, decide_eq_true_eq]
      exact ⟨hlower, hupper⟩
    · rw [if_neg hc, Bool.and_eq_true, decide_eq_true_eq, decide_eq_true_eq]
      have hne := mt hclosed hc
      rw [not_or] at hne
      refine ⟨lt_of_le_of_ne hlower fun heq => hne.1 ?_,
        lt_of_le_of_ne hupper fun heq => hne.2 ?_⟩
      · exact_mod_cast heq.symm
      · exact_mod_cast heq

/-- What lies between two points of an interval is a point of it. -/
theorem Covers.convex (hp : I.Covers p) (hr : I.Covers r) (hpq : p ≤ q) (hqr : q ≤ r) :
    I.Covers q := by
  have hlower := hp.lower
  have hupper := hr.upper
  refine ⟨by linarith, by linarith, fun hend => ?_⟩
  rcases hend with hend | hend
  · exact hp.closed (Or.inl (le_antisymm (by linarith) hlower))
  · exact hr.closed (Or.inr (le_antisymm hupper (by linarith)))

end Interval

namespace Number

variable {F : Format} {x : Number F} {r : ℚ}

/-! ## The interval of a number -/

/-- A sum of magnitudes in steps. -/
theorem units_add_mul_stepsPerUnit (F : Format) (j k : Nat) :
    (((F.units j + F.units k) * F.stepsPerUnit : Nat) : ℚ)
      = (F.magnitude j + F.magnitude k) * 10 ^ F.scale := by
  have hscale : (10 : ℚ) ^ F.scale = F.unitsPerOne * F.stepsPerUnit := by
    exact_mod_cast F.unitsPerOne_mul_stepsPerUnit.symm
  rw [hscale, ← mul_assoc, add_mul (F.magnitude j), F.magnitude_mul_unitsPerOne,
    F.magnitude_mul_unitsPerOne]
  push_cast
  rfl

theorem steps_eq (x : Number F) : (x.steps : ℚ) = x.magnitude * 10 ^ F.scale := by
  have hsum := units_add_mul_stepsPerUnit F 0 x.rank
  rwa [F.units_zero, F.magnitude_zero, Nat.zero_add, zero_add] at hsum

/-- The interval of a number ends halfway to its neighbours. -/
theorem covers_iff (x : Number F) (r : ℚ) :
    x.roundingInterval.Covers (r * 10 ^ F.scale) ↔
      F.magnitude (x.rank - 1) + x.magnitude ≤ 2 * r ∧
      2 * r ≤ x.magnitude + F.magnitude (x.rank + 1) ∧
      (2 * r = F.magnitude (x.rank - 1) + x.magnitude ∨
        2 * r = x.magnitude + F.magnitude (x.rank + 1) → x.rank % 2 = 0) := by
  have hpos : (0 : ℚ) < 10 ^ F.scale := by positivity
  have hlower : (x.roundingInterval.doubledLower : ℚ)
      = (F.magnitude (x.rank - 1) + x.magnitude) * 10 ^ F.scale :=
    units_add_mul_stepsPerUnit F (x.rank - 1) x.rank
  have hupper : (x.roundingInterval.doubledUpper : ℚ)
      = (x.magnitude + F.magnitude (x.rank + 1)) * 10 ^ F.scale :=
    units_add_mul_stepsPerUnit F x.rank (x.rank + 1)
  have hclosed : x.roundingInterval.closed ↔ x.rank % 2 = 0 := beq_iff_eq
  have hpoint : 2 * (r * 10 ^ F.scale) = 2 * r * 10 ^ F.scale := (mul_assoc ..).symm
  constructor
  · rintro ⟨hl, hu, hc⟩
    rw [hpoint, hlower] at hl hc
    rw [hpoint, hupper] at hu
    rw [hupper, mul_left_inj' hpos.ne', mul_left_inj' hpos.ne', hclosed] at hc
    exact ⟨le_of_mul_le_mul_right hl hpos, le_of_mul_le_mul_right hu hpos, hc⟩
  · rintro ⟨hl, hu, hc⟩
    refine ⟨?_, ?_, ?_⟩
    · rw [hpoint, hlower]
      exact mul_le_mul_of_nonneg_right hl hpos.le
    · rw [hpoint, hupper]
      exact mul_le_mul_of_nonneg_right hu hpos.le
    · rwa [hpoint, hlower, hupper, mul_left_inj' hpos.ne', mul_left_inj' hpos.ne', hclosed]

/-- A number lies in its own interval, zeros included. -/
theorem covers_magnitude (x : Number F) :
    x.roundingInterval.Covers (x.magnitude * 10 ^ F.scale) := by
  have hbelow : F.magnitude (x.rank - 1) ≤ x.magnitude :=
    F.magnitude_strictMono.monotone (Nat.sub_le ..)
  have habove : x.magnitude < F.magnitude (x.rank + 1) :=
    F.magnitude_strictMono (Nat.lt_succ_self _)
  refine (covers_iff x x.magnitude).mpr ⟨by linarith, by linarith, fun hend => ?_⟩
  have heq : F.magnitude (x.rank - 1) = F.magnitude x.rank := by
    rcases hend with hend | hend
    · change 2 * x.magnitude = _ + x.magnitude at hend
      change _ = x.magnitude
      linarith
    · exact absurd habove (by linarith)
  have hrank := F.magnitude_strictMono.injective heq
  omega

/-! ## Nearest numbers -/

/-- The two neighbours tell the ends of the interval. -/
theorem covers_of_isNearest (hx : x.isInfinite = false) (hr : 0 ≤ r)
    (h : x.IsNearest (withSign x.negative r)) :
    x.roundingInterval.Covers (r * 10 ^ F.scale) := by
  obtain ⟨hupper, hupperEven⟩ := h.above (Nat.lt_succ_self _) (isInfinite_eq_false_iff.mp hx)
  rw [covers_iff]
  rcases Nat.eq_zero_or_pos x.rank with hzero | hpos
  · have hmagnitude : x.magnitude = 0 := by rw [magnitude, hzero, F.magnitude_zero]
    refine ⟨?_, hupper, fun _ => by omega⟩
    rw [hmagnitude, hzero, F.magnitude_zero]
    linarith
  · obtain ⟨hlower, hlowerEven⟩ := h.below (Nat.sub_lt hpos Nat.one_pos)
    exact ⟨hlower, hupper, fun hend => hend.elim hlowerEven hupperEven⟩

/-- The ends of the interval lie halfway to the two neighbours. -/
theorem isNearest_of_covers (hr : 0 ≤ r)
    (h : x.roundingInterval.Covers (r * 10 ^ F.scale)) :
    x.IsNearest (withSign x.negative r) := by
  obtain ⟨hlower, hupper, heven⟩ := (covers_iff x r).mp h
  exact BetweenNeighbours.isNearest ⟨fun _ => ⟨hlower, fun hend => heven (Or.inl hend.symm)⟩,
    fun _ => ⟨hupper, fun hend => heven (Or.inr hend)⟩⟩ hr

/-- **A finite number is nearest to exactly the points of its interval**, taken with its sign. -/
theorem isNearest_iff_covers (hx : x.isInfinite = false) (hr : 0 ≤ r) :
    x.IsNearest (withSign x.negative r) ↔ x.roundingInterval.Covers (r * 10 ^ F.scale) :=
  ⟨covers_of_isNearest hx hr, isNearest_of_covers hr⟩

end Number

end ArithTree
