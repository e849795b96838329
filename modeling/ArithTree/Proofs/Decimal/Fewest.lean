import ArithTree.Proofs.Decimal.Interval
import ArithTree.Proofs.Decimal.Nearest
import ArithTree.Proofs.Decimal.Significant

/-!
# No fewer digits, and none nearer

The search looks at grids and at numbers of steps. Here its result is compared with all decimals that are
rounded to the same number, on whatever grid they lie.

A decimal on a coarser grid is not rounded to the number. One on a finer grid that is small enough to
have no more digits lies below the first power of ten that has as many as the shortest decimal. Then that
power of ten is rounded to the number as well, and the shortest decimal has a single digit. The decimal is
out of the question nevertheless, because the number is nearer to the power of ten
(`Number.pow_lt_of_contains`).

* `Decimal.IsShortest`: fewest digits, the least distance among those with as few, and the rule for ties.
* `Number.isShortest_shortest`: the result of the search for a finite number is shortest.
-/

namespace ArithTree

variable {F : Format}

/-- Of two decimals that are equally near, the first is the one to take. -/
def Tie.Takes (tie : Tie) (d d' : Decimal) : Prop :=
  match tie with
  | .away => d'.value < d.value
  | .even => Nat.ofDigitChars 10 d.significantDigits 0 % 2 = 0

/-- With the sign of the number, the decimal has the number as the nearest one. Of all such decimals it has
the fewest significant digits, of those with as few it is as near to the number as any, and of those that
are as near it is the one to take. -/
structure Decimal.IsShortest (d : Decimal) (x : Number F) (tie : Tie) : Prop where
  nearest : x.IsNearest (withSign x.negative d.value)
  fewest : ∀ d' : Decimal, x.IsNearest (withSign x.negative d'.value) →
    d.significantDigits.length ≤ d'.significantDigits.length
  closest : ∀ d' : Decimal, x.IsNearest (withSign x.negative d'.value) →
    d'.significantDigits.length = d.significantDigits.length →
      |d.value - x.magnitude| ≤ |d'.value - x.magnitude|
  takes : ∀ d' : Decimal, x.IsNearest (withSign x.negative d'.value) →
    d'.significantDigits.length = d.significantDigits.length →
      |d'.value - x.magnitude| = |d.value - x.magnitude| → d'.value ≠ d.value → tie.Takes d d'

namespace Number

variable {x : Number F} {tie : Tie} {c e : Nat} {p : ℚ}

/-! ## Powers of ten -/

/-- There is one power of ten between the first magnitudes, and all of these keep clear of it. -/
theorem exists_pow_subnormal (F : Format) :
    ∃ j, 19 * Nat.pow 10 j < 20 * F.stepsPerUnit ∧
      19 * F.stepsPerUnit < 2 * Nat.pow 10 (j + 2) ∧
      ∀ k < 10, 2 * Nat.pow 10 (j + 1) ≤ (2 * k + 1) * F.stepsPerUnit →
        19 * Nat.pow 10 (j + 1) < 20 * (k * F.stepsPerUnit) := by
  cases F with
  | binary32 => exact ⟨104, by decide +kernel⟩
  | binary64 => exact ⟨750, by decide +kernel⟩

theorem pow_lt_of_subnormal {k : Nat} (hpos : 0 < k) (hk : k < 10)
    (h : 2 * Nat.pow 10 e ≤ (2 * k + 1) * F.stepsPerUnit) :
    19 * Nat.pow 10 e < 20 * (k * F.stepsPerUnit) := by
  obtain ⟨j, hbelow, habove, hnext⟩ := exists_pow_subnormal F
  have hmono {i i' : Nat} (hi : i ≤ i') : Nat.pow 10 i ≤ Nat.pow 10 i' :=
    Nat.pow_le_pow_right (by decide) hi
  rcases Nat.lt_trichotomy e (j + 1) with hlt | rfl | hlt
  · have hpow := hmono (Nat.le_of_lt_succ hlt)
    have hsteps : F.stepsPerUnit ≤ k * F.stepsPerUnit := Nat.le_mul_of_pos_left _ hpos
    omega
  · exact hnext k hk h
  · have hpow : Nat.pow 10 (j + 2) ≤ Nat.pow 10 e := hmono hlt
    have hsteps : (2 * k + 1) * F.stepsPerUnit ≤ 19 * F.stepsPerUnit :=
      Nat.mul_le_mul_right _ (by omega)
    omega

/-- A magnitude with a spacing of more than a tenth of it is one of the first. -/
theorem units_cases (hx : 0 < x.rank) :
    10 * F.spacing x.rank ≤ x.units ∨ F.spacing x.rank = 1 ∧ 0 < x.units ∧ x.units < 10 := by
  have hbit : 10 ≤ F.hiddenBit := by cases F <;> decide
  have hpos : 0 < x.units := F.units_zero ▸ F.units_strictMono hx
  obtain ⟨m, hunits, -, hm | hspacing⟩ := F.exists_significand x.rank
  · left
    rw [units, hunits]
    exact Nat.mul_le_mul_right _ (Nat.le_trans hbit hm)
  · rw [hspacing]
    omega

/-- **A power of ten that is rounded to a number is hardly larger than it.** -/
theorem pow_lt_of_contains (hx : 0 < x.rank) (h : x.roundingInterval.contains (Nat.pow 10 e)) :
    19 * Nat.pow 10 e < 20 * x.steps := by
  have hupper : 2 * Nat.pow 10 e ≤ (x.units + F.units (x.rank + 1)) * F.stepsPerUnit :=
    (Interval.le_of_contains h).2
  have hsucc : F.units (x.rank + 1) = x.units + F.spacing x.rank := F.units_succ x.rank
  rw [hsucc] at hupper
  show 19 * Nat.pow 10 e < 20 * (x.units * F.stepsPerUnit)
  rcases units_cases hx with hle | ⟨hspacing, hpos, hlt⟩
  · have hunits : 0 < x.units * F.stepsPerUnit :=
      Nat.mul_pos (F.units_zero ▸ F.units_strictMono hx) F.stepsPerUnit_pos
    have hspacing := Nat.mul_le_mul_right F.stepsPerUnit hle
    rw [Nat.mul_assoc] at hspacing
    rw [Nat.add_mul, Nat.add_mul] at hupper
    omega
  · rw [hspacing, ← Nat.add_assoc, ← Nat.two_mul] at hupper
    exact pow_lt_of_subnormal hpos hlt hupper

/-! ## Decimals on other grids -/

section Competitors

open Decimal (digits)

variable {s l n : Nat} {j : Int}

/-- A product with a power of ten, by the number of digits. -/
theorem mul_zpow_lt (hs : s < 10 ^ l) (h : l + j ≤ n + e) : (s : ℚ) * 10 ^ j < 10 ^ n * 10 ^ e := by
  have hpos : (0 : ℚ) < 10 ^ j := zpow_pos (by norm_num) j
  have hcast : (s : ℚ) < 10 ^ l := by exact_mod_cast hs
  calc (s : ℚ) * 10 ^ j < 10 ^ l * 10 ^ j := mul_lt_mul_of_pos_right hcast hpos
    _ = 10 ^ ((l : Int) + j) := by rw [zpow_add₀ (by norm_num), zpow_natCast]
    _ ≤ 10 ^ ((n : Int) + e) := zpow_le_zpow_right₀ (by norm_num) h
    _ = 10 ^ n * 10 ^ e := by rw [zpow_add₀ (by norm_num), zpow_natCast, zpow_natCast]

/-- No decimal on a coarser grid is rounded to the number. -/
theorem Found.exponent_le (h : x.Found tie c e) (hp : x.roundingInterval.Covers (s * 10 ^ j)) :
    j ≤ e := by
  by_contra hlt
  obtain ⟨k, rfl⟩ : ∃ k : Nat, j = (k + (e + 1) : Nat) := ⟨(j - (e + 1)).toNat, by omega⟩
  refine h.coarser (s * 10 ^ k) (Interval.contains_iff_covers.mpr ?_)
  have hpoint : ((s * 10 ^ k * Nat.pow 10 (e + 1) : Nat) : ℚ) = s * 10 ^ ((k + (e + 1) : Nat) : Int) := by
    show ((s * 10 ^ k * 10 ^ (e + 1) : Nat) : ℚ) = _
    rw [zpow_natCast, pow_add]
    push_cast
    ring
  rwa [hpoint]

/-- If something below the first power of ten with as many digits is rounded to the number, then so is
this power, which would lie on the coarser grid if there was more than one digit. -/
theorem Found.single_digit (h : x.Found tie c e) (hp : x.roundingInterval.Covers p)
    (hlt : p < 10 ^ ((digits c).length - 1) * 10 ^ e) :
    (digits c).length = 1 ∧ x.roundingInterval.contains (Nat.pow 10 e) := by
  have hmod := h.mod_ten
  have hlower := (Decimal.pow_length_digits (by omega : 0 < c)).1
  have hcovers : x.roundingInterval.Covers ((10 ^ ((digits c).length - 1) * 10 ^ e : Nat) : ℚ) := by
    refine hp.convex (Interval.contains_iff_covers.mp h.nearest.contains) ?_ ?_
    · push_cast
      exact hlt.le
    · exact_mod_cast Nat.mul_le_mul_right _ hlower
  have hcontains := Interval.contains_iff_covers.mpr hcovers
  have hlength : 0 < (digits c).length := List.length_pos_iff.mpr (Decimal.digits_ne_nil c)
  generalize (digits c).length = l at hcontains hlength
  rcases l with _ | _ | l
  · cases hlength
  · rw [Nat.pow_zero, Nat.one_mul] at hcontains
    exact ⟨rfl, hcontains⟩
  · have hpoint : 10 ^ (l + 1 + 1 - 1) * 10 ^ e = 10 ^ l * 10 ^ (e + 1) := by
      rw [Nat.add_sub_cancel]
      ring
    rw [hpoint] at hcontains
    exact absurd hcontains (h.coarser _)

/-- **No decimal with fewer digits is rounded to the number.** -/
theorem Found.length_le (h : x.Found tie c e) (hs : 0 < s)
    (hp : x.roundingInterval.Covers (s * 10 ^ j)) : (digits c).length ≤ (digits s).length := by
  by_contra hlt
  have hexponent := h.exponent_le hp
  have hlength : 0 < (digits s).length := List.length_pos_iff.mpr (Decimal.digits_ne_nil s)
  have hbound := mul_zpow_lt (n := (digits c).length - 1) (Decimal.pow_length_digits hs).2
    (by omega : ((digits s).length : Int) + j ≤ ((digits c).length - 1 : Nat) + e)
  have hone := (h.single_digit hp hbound).1
  omega

theorem cast_distance (v n : Nat) : (Interval.distance v n : ℚ) = |(n : ℚ) - v| := by
  unfold Interval.distance
  rw [Nat.cast_natAbs]
  push_cast
  rfl

/-- A decimal with as many digits on a finer grid is farther from the number than the power of ten that
has a single digit, and that is no nearer than the point that was found. -/
theorem Found.farther (h : x.Found tie c e) (hx : 0 < x.rank) (hs : 0 < s)
    (hp : x.roundingInterval.Covers (s * 10 ^ j)) (hlength : (digits s).length = (digits c).length)
    (hlt : j < e) : |(c : ℚ) * 10 ^ e - x.steps| < |(s : ℚ) * 10 ^ j - x.steps| := by
  have hdigits := (Decimal.pow_length_digits hs).2
  have hpositive : 0 < (digits s).length := List.length_pos_iff.mpr (Decimal.digits_ne_nil s)
  have hbound := mul_zpow_lt (n := (digits c).length - 1) hdigits
    (by omega : ((digits s).length : Int) + j ≤ ((digits c).length - 1 : Nat) + e)
  obtain ⟨hone, hcontains⟩ := h.single_digit hp hbound
  have hpow : 19 * (10 : ℚ) ^ e < 20 * x.steps := by
    exact_mod_cast pow_lt_of_contains hx hcontains
  have hself : |(c : ℚ) * 10 ^ e - x.steps| ≤ |(10 : ℚ) ^ e - x.steps| := by
    have hclosest := h.nearest.closest 1 (by rwa [Nat.one_mul])
    rw [← Nat.cast_le (α := ℚ), cast_distance, cast_distance, Nat.one_mul] at hclosest
    exact_mod_cast hclosest
  have hsmall : 10 * ((s : ℚ) * 10 ^ j) ≤ 9 * 10 ^ e := by
    rw [hlength, hone] at hdigits
    have hnine : (s : ℚ) ≤ 9 := by exact_mod_cast Nat.le_of_lt_succ hdigits
    have hten : (10 : ℚ) ^ j * 10 ≤ 10 ^ e := by
      rw [← zpow_natCast (10 : ℚ) e, ← zpow_add_one₀ (by norm_num)]
      exact zpow_le_zpow_right₀ (by norm_num) hlt
    have hnonneg : (0 : ℚ) ≤ 10 ^ j * 10 := by positivity
    calc 10 * ((s : ℚ) * 10 ^ j) = s * (10 ^ j * 10) := by ring
      _ ≤ 9 * 10 ^ e := mul_le_mul hnine hten hnonneg (by norm_num)
  have hpositive : (0 : ℚ) < 10 ^ e := by positivity
  refine lt_of_le_of_lt hself ?_
  rw [abs_of_neg (show (s : ℚ) * 10 ^ j - x.steps < 0 by linarith), abs_lt]
  constructor
  · linarith
  · linarith

/-- **No decimal with as many digits is nearer**, and one that is as near lies on the same grid. -/
theorem Found.closest (h : x.Found tie c e) (hx : 0 < x.rank) (hs : 0 < s)
    (hp : x.roundingInterval.Covers (s * 10 ^ j)) (hlength : (digits s).length = (digits c).length) :
    |(c : ℚ) * 10 ^ e - x.steps| ≤ |(s : ℚ) * 10 ^ j - x.steps| ∧
      (|(s : ℚ) * 10 ^ j - x.steps| = |(c : ℚ) * 10 ^ e - x.steps| →
        j = e ∧ (s ≠ c → tie.Prefers c s)) := by
  rcases lt_or_eq_of_le (h.exponent_le hp) with hlt | rfl
  · have hfarther := h.farther hx hs hp hlength hlt
    exact ⟨hfarther.le, fun heq => absurd heq hfarther.ne'⟩
  · have hcast (m : Nat) : ((m * Nat.pow 10 e : Nat) : ℚ) = m * 10 ^ e := by
      show ((m * 10 ^ e : Nat) : ℚ) = _
      push_cast
      rfl
    rw [zpow_natCast, ← hcast] at hp ⊢
    rw [← hcast, ← cast_distance, ← cast_distance, Nat.cast_le, Nat.cast_inj]
    have hcontains := Interval.contains_iff_covers.mpr hp
    exact ⟨h.nearest.closest s hcontains,
      fun heq => ⟨rfl, fun hne => h.nearest.prefers s hne hcontains heq⟩⟩

end Competitors

/-! ## The shortest decimal -/

/-- A distance in steps. -/
theorem abs_sub_mul_scale (x : Number F) (q : ℚ) :
    |q - x.magnitude| * 10 ^ F.scale = |q * 10 ^ F.scale - x.steps| := by
  have hpos : (0 : ℚ) < 10 ^ F.scale := by positivity
  rw [steps_eq, ← sub_mul, abs_mul, abs_of_pos hpos]

/-- A decimal that is rounded to a number other than zero, on its grid of steps. -/
theorem exists_grid_point (hx : x.isInfinite = false) (hrank : 0 < x.rank) {d : Decimal}
    (hd : x.IsNearest (withSign x.negative d.value)) :
    ∃ (s : Nat) (j : Int), 0 < s ∧ d.value * 10 ^ F.scale = s * 10 ^ j ∧
      x.roundingInterval.Covers (s * 10 ^ j) ∧ d.significantDigits = Decimal.digits s := by
  have hcovers := (isNearest_iff_covers hx d.value_nonneg).mp hd
  have hne : d.coefficient ≠ 0 := by
    intro hzero
    have hlower := ((covers_iff x d.value).mp hcovers).1
    have hbelow := F.magnitude_nonneg (x.rank - 1)
    have hpos : F.magnitude 0 < x.magnitude := F.magnitude_strictMono hrank
    rw [F.magnitude_zero] at hpos
    rw [Decimal.value_eq_zero_iff.mpr hzero] at hlower
    linarith
  obtain ⟨s, t, hs, hvalue, hdigits⟩ := Decimal.exists_significand hne
  have hpoint : d.value * 10 ^ F.scale = s * 10 ^ (t + F.scale) := by
    rw [hvalue, mul_assoc, zpow_add₀ (by norm_num), zpow_natCast]
  exact ⟨s, t + F.scale, by omega, hpoint, hpoint ▸ hcovers, hdigits⟩

/-- **The search finds a shortest decimal.** -/
theorem Found.isShortest (h : x.Found tie c e) (hx : x.isInfinite = false) (hrank : 0 < x.rank)
    {d : Decimal} (hd : d = ⟨c, e - F.scale⟩) : d.IsShortest x tie := by
  have hscale : (0 : ℚ) < 10 ^ F.scale := by positivity
  have hvalue : d.value * 10 ^ F.scale = c * 10 ^ e := by
    rw [hd, Decimal.value, mul_assoc, ← zpow_natCast (10 : ℚ) F.scale,
      ← zpow_add₀ (by norm_num), Int.sub_add_cancel, zpow_natCast]
  have hdigits : d.significantDigits = Decimal.digits c := by
    rw [hd]
    exact Json.Numeral.dropTrailingZeros_eq_self (Decimal.zero_notMem_getLast?_digits h.mod_ten)
  refine ⟨?_, fun d' hd' => ?_, fun d' hd' hlength => ?_, fun d' hd' hlength heq hne => ?_⟩
  · rw [isNearest_iff_covers hx d.value_nonneg, hvalue]
    have hcovers := Interval.contains_iff_covers.mp h.nearest.contains
    exact_mod_cast hcovers
  · obtain ⟨s, j, hs, -, hcovers, hdigits'⟩ := exists_grid_point hx hrank hd'
    rw [hdigits, hdigits']
    exact h.length_le hs hcovers
  · obtain ⟨s, j, hs, hpoint, hcovers, hdigits'⟩ := exists_grid_point hx hrank hd'
    rw [hdigits, hdigits'] at hlength
    rw [← mul_le_mul_iff_of_pos_right hscale, abs_sub_mul_scale, abs_sub_mul_scale, hvalue, hpoint]
    exact (h.closest hrank hs hcovers hlength).1
  · obtain ⟨s, j, hs, hpoint, hcovers, hdigits'⟩ := exists_grid_point hx hrank hd'
    rw [hdigits, hdigits'] at hlength
    rw [← mul_left_inj' hscale.ne', abs_sub_mul_scale, abs_sub_mul_scale, hvalue, hpoint] at heq
    obtain ⟨rfl, hprefers⟩ := (h.closest hrank hs hcovers hlength).2 heq
    rw [zpow_natCast] at hpoint
    have hprefers := hprefers fun hsc => hne <| by
      rw [← mul_left_inj' hscale.ne', hpoint, hvalue, hsc]
    cases tie with
    | away =>
      have hlt : (s : ℚ) < c := by exact_mod_cast hprefers
      show d'.value < d.value
      rw [← mul_lt_mul_iff_of_pos_right hscale, hpoint, hvalue]
      exact mul_lt_mul_of_pos_right hlt (by positivity)
    | even =>
      show Nat.ofDigitChars 10 d.significantDigits 0 % 2 = 0
      rw [hdigits, Decimal.ofDigitChars_digits]
      exact hprefers

theorem shortest_of_isZero (tie : Tie) (hx : x.isZero) : x.shortest tie = ⟨0, 0⟩ := if_pos hx

/-- **The shortest decimal of a finite number**, zero included. -/
theorem isShortest_shortest (tie : Tie) (hx : x.isInfinite = false) :
    (x.shortest tie).IsShortest x tie := by
  by_cases hzero : x.isZero
  · have hvalue : (x.shortest tie).value = 0 := by
      rw [shortest_of_isZero tie hzero, Decimal.value_eq_zero_iff]
    have hdigits : (x.shortest tie).significantDigits = [] :=
      Decimal.significantDigits_of_coefficient_eq_zero (Decimal.value_eq_zero_iff.mp hvalue)
    have hmagnitude : x.magnitude = 0 := by
      rw [magnitude, isZero_iff.mp hzero, F.magnitude_zero]
    refine ⟨?_, fun d hd => ?_, fun d hd hlength => ?_, fun d hd hlength heq hne => ?_⟩
    · rw [isNearest_iff_covers hx (Decimal.value_nonneg _), hvalue, ← hmagnitude]
      exact covers_magnitude x
    · rw [hdigits]
      exact Nat.zero_le _
    · rw [hvalue, hmagnitude, sub_zero, abs_zero]
      exact abs_nonneg _
    · rw [hvalue, hmagnitude, sub_zero, sub_zero, abs_zero, abs_eq_zero] at heq
      exact absurd (heq.trans hvalue.symm) hne
  · rw [Bool.not_eq_true] at hzero
    obtain ⟨c, e, hshortest, hfound⟩ := exists_found tie hzero
    exact hfound.isShortest hx (isZero_eq_false_iff.mp hzero) hshortest

end Number

end ArithTree
