import Mathlib.Algebra.Order.Field.Power
import Mathlib.Tactic.FieldSimp
import ArithTree.Proofs.Binary.Halfway
import ArithTree.Proofs.Decimal.Interval

/-!
# Rounded decimals

A decimal is rounded to the number nearest to its exact value. `ofDecimal` settles decimals of extreme size
without computing them, because these are before or behind all halfway points.

The interval of a number was made for the search of its shortest decimal. It is what it is meant to be: a
decimal whose value lies in the interval of a number is rounded to that number.

* `Number.ofDecimal_cases`: the shortcuts of `ofDecimal`, by the value of the decimal.
* `Number.isNearest_ofDecimal`: the number nearest to a decimal.
* `Number.ofDecimal_eq_of_contains`: reading back a decimal.
-/

namespace ArithTree

/-- The exact value of a decimal. -/
def Decimal.value (d : Decimal) : ℚ := d.coefficient * 10 ^ d.exponent

theorem Decimal.value_nonneg (d : Decimal) : 0 ≤ d.value :=
  mul_nonneg (Nat.cast_nonneg _) (zpow_nonneg (by norm_num) _)

namespace Number

variable {F : Format} {x : Number F} {d : Decimal} {p : Nat}

/-! ## Rounded decimals -/

/-- A decimal is smaller or larger than all formats reach, or its exact value is rounded. -/
theorem ofDecimal_cases (F : Format) (negative : Bool) (d : Decimal) :
    (d.value * 10 ^ decimalReach < 1 ∧ ofDecimal F negative d = zero negative) ∨
    (10 ^ decimalReach ≤ d.value ∧ ofDecimal F negative d = infinity negative) ∨
    ∃ m k : Nat, 0 < k ∧ d.value * k = m ∧
      ofDecimal F negative d = nearest F negative (m * F.unitsPerOne) k := by
  obtain ⟨c, e⟩ := d
  unfold ofDecimal Decimal.value
  by_cases hc : c = 0
  · refine Or.inl ⟨?_, if_pos hc⟩
    simp [hc]
  simp only [if_neg hc]
  by_cases hreach : (decimalReach : Int) ≤ e
  · refine Or.inr (Or.inl ⟨?_, if_pos hreach⟩)
    have hone : (1 : ℚ) ≤ c := by exact_mod_cast Nat.pos_of_ne_zero hc
    have hpow : (10 : ℚ) ^ decimalReach ≤ 10 ^ e := by
      rw [← zpow_natCast]
      exact zpow_le_zpow_right₀ (by norm_num) hreach
    calc (10 : ℚ) ^ decimalReach ≤ 10 ^ e := hpow
      _ ≤ c * 10 ^ e := le_mul_of_one_le_left (by positivity) hone
  simp only [if_neg hreach]
  by_cases htiny : e + (c.log2 + 1 : Nat) ≤ -(decimalReach : Int)
  · refine Or.inl ⟨?_, if_pos htiny⟩
    have hcoefficient : (c : ℚ) < 10 ^ (c.log2 + 1) := by
      exact_mod_cast Nat.lt_of_lt_of_le Nat.lt_log2_self (Nat.pow_le_pow_left (by decide) _)
    calc (c : ℚ) * 10 ^ e * 10 ^ decimalReach
        < 10 ^ (c.log2 + 1) * 10 ^ e * 10 ^ decimalReach :=
          mul_lt_mul_of_pos_right (mul_lt_mul_of_pos_right hcoefficient (by positivity))
            (pow_pos (by norm_num) _)
      _ = 10 ^ (e + (c.log2 + 1 : Nat) + decimalReach) := by
          rw [zpow_add₀ (by norm_num), zpow_add₀ (by norm_num), zpow_natCast, zpow_natCast]
          ring
      _ ≤ 10 ^ (0 : Int) := zpow_le_zpow_right₀ (by norm_num) (by omega)
      _ = 1 := zpow_zero _
  simp only [if_neg htiny]
  refine Or.inr (Or.inr ?_)
  cases e with
  | ofNat n =>
    refine ⟨c * 10 ^ n, 1, Nat.one_pos, ?_, rfl⟩
    simp
  | negSucc n =>
    refine ⟨c, 10 ^ (n + 1), Nat.pow_pos (by decide), ?_, rfl⟩
    rw [zpow_negSucc]
    push_cast
    field_simp

theorem negative_ofDecimal (F : Format) (negative : Bool) (d : Decimal) :
    (ofDecimal F negative d).negative = negative := by
  obtain ⟨-, h⟩ | ⟨-, h⟩ | ⟨_, _, _, -, h⟩ := ofDecimal_cases F negative d
  · rw [h, zero]
  · rw [h, infinity]
  · rw [h, nearest]

theorem overflow_lt_reach (F : Format) : F.overflow < 10 ^ decimalReach := by
  cases F <;> decide +kernel

theorem two_mul_unitsPerOne_le_reach (F : Format) : 2 * F.unitsPerOne ≤ 10 ^ decimalReach := by
  cases F <;> decide +kernel

/-- **A decimal is rounded to the number nearest to it.** -/
theorem isNearest_ofDecimal (F : Format) (negative : Bool) (d : Decimal) :
    (ofDecimal F negative d).IsNearest (withSign (ofDecimal F negative d).negative d.value) := by
  obtain ⟨hvalue, hzero⟩ | ⟨hvalue, hinfinity⟩ | ⟨m, k, hk, hvalue, hnearest⟩ :=
    ofDecimal_cases F negative d
  · have hreach : (2 : ℚ) * F.unitsPerOne ≤ 10 ^ decimalReach := by
      exact_mod_cast two_mul_unitsPerOne_le_reach F
    rw [hzero]
    refine isNearest_zero d.value_nonneg ?_
    rw [F.halfway_zero, lt_div_iff₀ (mul_pos two_pos F.unitsPerOne_cast_pos)]
    exact (mul_le_mul_of_nonneg_left hreach d.value_nonneg).trans_lt hvalue
  · rw [hinfinity]
    refine isNearest_infinity d.value_nonneg (lt_of_lt_of_le ?_ hvalue)
    exact_mod_cast overflow_lt_reach F
  · have hpos : (k : ℚ) ≠ 0 := by exact_mod_cast hk.ne'
    have h := isNearest_nearest F negative (m * F.unitsPerOne) hk
    rw [Nat.cast_mul, mul_div_mul_right _ _ F.unitsPerOne_cast_pos.ne', ← hvalue,
      mul_div_cancel_right₀ _ hpos] at h
    rw [hnearest]
    exact h

/-! ## Decimals in the interval of a number -/

/-- **A decimal in the interval of a number is rounded to that number.** -/
theorem ofDecimal_eq_of_contains (hp : x.roundingInterval.contains p)
    (hd : d.value * 10 ^ F.scale = p) : ofDecimal F x.negative d = x := by
  have hcovers := Interval.contains_iff_covers.mp hp
  rw [← hd] at hcovers
  have hnearest := isNearest_ofDecimal F x.negative d
  rw [negative_ofDecimal] at hnearest
  exact (isNearest_of_covers d.value_nonneg hcovers).unique hnearest (negative_ofDecimal ..)

/-! ## The shortest decimal -/

theorem contains_zero (hx : x.rank = 0) : x.roundingInterval.contains 0 := by
  unfold Interval.contains roundingInterval units
  rw [hx, F.units_zero]
  simp

/-- The value of the shortest decimal lies in the interval of its number. -/
theorem exists_steps_shortest (tie : Tie) (x : Number F) :
    ∃ p, x.roundingInterval.contains p ∧ (x.shortest tie).value * 10 ^ F.scale = p := by
  by_cases hx : x.isZero
  · refine ⟨0, contains_zero (isZero_iff.mp hx), ?_⟩
    unfold shortest
    rw [if_pos hx]
    simp [Decimal.value]
  · obtain ⟨e, he, hcontains⟩ := shortest_contains tie (Bool.not_eq_true _ ▸ hx)
    refine ⟨_, hcontains, ?_⟩
    have hpow : (10 : ℚ) ^ ((e : Int) - F.scale) * 10 ^ F.scale = 10 ^ e := by
      rw [zpow_sub₀ (by norm_num), zpow_natCast, zpow_natCast]
      field_simp
    unfold Decimal.value
    rw [he, mul_assoc, hpow]
    show _ = (((x.shortest tie).coefficient * 10 ^ e : Nat) : ℚ)
    push_cast
    rfl

end Number

end ArithTree
