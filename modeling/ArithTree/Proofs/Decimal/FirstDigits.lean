import ArithTree.Proofs.Decimal.Digits
import ArithTree.Proofs.Decimal.Length
import ArithTree.Proofs.Decimal.Nearest

/-!
# The first digits of a decimal

Of a decimal with too many digits only the first ones are read, and a one stands for all others. This is
enough to tell which decimals with no more digits it reaches, because those have no digits in the places
that are left out, or are smaller than what is kept.

* `Decimal.value_le_abridge_iff`, `Decimal.value_lt_abridge_iff`: what a decimal reaches, and the same with
  fewer digits.
-/

namespace ArithTree

namespace Decimal

variable {c d : Decimal} {n q T : Nat} {e : Int}

/-! ## First digits -/

/-- The digits of the decimal that are worth `10 ^ e` or more are those of `q`. -/
structure Begins (d : Decimal) (q : Nat) (e : Int) : Prop where
  lower : q * (10 : ℚ) ^ e ≤ d.value
  upper : d.value < (q + 1) * (10 : ℚ) ^ e

theorem begins_of_coefficient {j : Nat} (hlower : q * 10 ^ j ≤ d.coefficient)
    (hupper : d.coefficient < (q + 1) * 10 ^ j) : d.Begins q (d.exponent + j) := by
  have hpow : (10 : ℚ) ^ (d.exponent + j) = 10 ^ j * 10 ^ d.exponent := by
    rw [zpow_add₀ (by norm_num), zpow_natCast, mul_comm]
  have hpos : (0 : ℚ) < 10 ^ d.exponent := by positivity
  have hlower' : (q : ℚ) * 10 ^ j ≤ d.coefficient := by exact_mod_cast hlower
  have hupper' : (d.coefficient : ℚ) < (q + 1) * 10 ^ j := by exact_mod_cast hupper
  constructor
  · rw [hpow, ← mul_assoc]
    exact mul_le_mul_of_nonneg_right hlower' hpos.le
  · rw [hpow, ← mul_assoc]
    exact mul_lt_mul_of_pos_right hupper' hpos

/-- Enough first digits tell whether a decimal with no more digits is reached. -/
theorem Begins.value_le_iff (h : d.Begins q e) (hq : 10 ^ n ≤ 10 * q) (hc : c.coefficient < 10 ^ n) :
    c.value ≤ d.value ↔ c.value ≤ q * 10 ^ e := by
  refine ⟨fun hle => ?_, fun hle => hle.trans h.lower⟩
  rcases le_or_gt e c.exponent with he | he
  · -- The decimal has no digits but those of `q`.
    obtain ⟨j, hj⟩ : ∃ j : Nat, c.exponent = j + e := ⟨(c.exponent - e).toNat, by omega⟩
    have hpos : (0 : ℚ) < 10 ^ e := zpow_pos (by norm_num) e
    have hvalue : c.value = (c.coefficient * 10 ^ j : Nat) * (10 : ℚ) ^ e := by
      unfold value
      rw [hj, zpow_add₀ (by norm_num), zpow_natCast]
      push_cast
      ring
    have hlt := hle.trans_lt h.upper
    rw [hvalue, mul_lt_mul_iff_of_pos_right hpos] at hlt
    have hnat : c.coefficient * 10 ^ j < q + 1 := by exact_mod_cast hlt
    rw [hvalue]
    refine mul_le_mul_of_nonneg_right ?_ hpos.le
    exact_mod_cast Nat.le_of_lt_succ hnat
  · -- Already the digits of `q` are worth more than it.
    have hpow : (10 : ℚ) ^ (c.exponent + 1) ≤ 10 ^ e := zpow_le_zpow_right₀ (by norm_num) he
    have hnat : c.coefficient ≤ 10 * q := Nat.le_trans (Nat.le_of_lt hc) hq
    calc c.value ≤ (10 * q) * 10 ^ c.exponent :=
          mul_le_mul_of_nonneg_right (by exact_mod_cast hnat) (by positivity)
      _ = q * 10 ^ (c.exponent + 1) := by
          rw [zpow_add₀ (by norm_num), zpow_one]
          ring
      _ ≤ q * 10 ^ e := mul_le_mul_of_nonneg_left hpow (Nat.cast_nonneg q)

/-- The first digits of a coefficient that has more than `n`. -/
theorem exists_first_digits (hn : 0 < n) {c : Nat} (hc : 10 ^ n ≤ c) :
    n < (digits c).length ∧ 10 ^ n ≤ 10 * (c / 10 ^ ((digits c).length - n)) := by
  have hlength : n < (digits c).length := by
    by_contra hle
    exact absurd ((Nat.length_toDigits_le_iff (by decide) hn).mp (Nat.not_lt.mp hle))
      (Nat.not_lt.mpr hc)
  refine ⟨hlength, ?_⟩
  have hlower := (pow_length_digits (Nat.lt_of_lt_of_le (Nat.pow_pos (by decide)) hc)).1
  generalize (digits c).length = k at hlength hlower ⊢
  have hquotient : 10 ^ (n - 1) ≤ c / 10 ^ (k - n) := by
    rw [Nat.le_div_iff_mul_le (Nat.pow_pos (by decide)), ← Nat.pow_add]
    have hexponent : n - 1 + (k - n) = k - 1 := by omega
    rwa [hexponent]
  calc 10 ^ n = 10 * 10 ^ (n - 1) := by
        rw [← Nat.pow_succ', Nat.succ_eq_add_one, Nat.sub_add_cancel hn]
    _ ≤ 10 * (c / 10 ^ (k - n)) := Nat.mul_le_mul_left 10 hquotient

/-- A decimal with too many digits and the same with fewer of them begin with the same digits, behind which
the latter has a one. -/
theorem exists_begins_abridge (hn : 0 < n) (hd : 10 ^ n ≤ d.coefficient) :
    ∃ (q : Nat) (e : Int), 10 ^ n ≤ 10 * q ∧ d.Begins q e ∧ (d.abridge n).Begins q e ∧
      q * (10 : ℚ) ^ e < (d.abridge n).value := by
  obtain ⟨hlength, hq⟩ := exists_first_digits hn hd
  have habridge : d.abridge n = ⟨d.coefficient / 10 ^ ((digits d.coefficient).length - n) * 10 + 1,
      d.exponent + ((digits d.coefficient).length - n - 1 : Nat)⟩ := if_neg (Nat.not_lt.mpr hd)
  generalize (digits d.coefficient).length = k at hlength hq habridge
  have hbegins : d.Begins (d.coefficient / 10 ^ (k - n)) (d.exponent + (k - n : Nat)) :=
    begins_of_coefficient (Nat.div_mul_le_self ..)
      ((Nat.div_lt_iff_lt_mul (Nat.pow_pos (by decide))).mp (Nat.lt_succ_self _))
  generalize d.coefficient / 10 ^ (k - n) = q at hq habridge hbegins
  have hbegins' : (d.abridge n).Begins q ((d.abridge n).exponent + (1 : Nat)) := by
    rw [habridge]
    exact begins_of_coefficient (by simp) (by simp; omega)
  have hexponent : (d.abridge n).exponent + (1 : Nat) = d.exponent + (k - n : Nat) := by
    rw [habridge]
    simp only
    omega
  refine ⟨q, _, hq, hbegins, hexponent ▸ hbegins', ?_⟩
  have hvalue : (d.abridge n).value = (q * 10 + 1) * 10 ^ (d.abridge n).exponent := by
    conv_lhs => rw [value, habridge]
    rw [habridge]
    push_cast
    rfl
  rw [← hexponent, hvalue, zpow_add₀ (by norm_num), Nat.cast_one, zpow_one, ← mul_assoc,
    mul_right_comm]
  exact mul_lt_mul_of_pos_right (lt_add_one _) (by positivity)

/-- **A decimal and the same with fewer digits reach the same decimals** of so many digits. -/
theorem value_le_abridge_iff (hn : 0 < n) (hc : c.coefficient < 10 ^ n) (d : Decimal) :
    c.value ≤ (d.abridge n).value ↔ c.value ≤ d.value := by
  by_cases hd : d.coefficient < Nat.pow 10 n
  · rw [abridge_of_lt hd]
  · obtain ⟨q, e, hq, hbegins, hbegins', -⟩ := exists_begins_abridge hn (Nat.not_lt.mp hd)
    rw [hbegins.value_le_iff hq hc, hbegins'.value_le_iff hq hc]

/-- With fewer digits it exceeds the decimals of so many digits that it reaches. -/
theorem value_lt_abridge_iff (hn : 0 < n) (hc : c.coefficient < 10 ^ n) (hd : 10 ^ n ≤ d.coefficient) :
    c.value < (d.abridge n).value ↔ c.value ≤ d.value := by
  obtain ⟨q, e, hq, hbegins, hbegins', hlt⟩ := exists_begins_abridge hn hd
  rw [hbegins.value_le_iff hq hc]
  exact ⟨fun h => (hbegins'.value_le_iff hq hc).mp h.le, fun h => h.trans_lt hlt⟩

/-- A whole number is reached with all digits or with fewer, if it has no more than these. -/
theorem natCast_le_abridge_iff (hn : 0 < n) (hT : T < 10 ^ n) (d : Decimal) :
    (T : ℚ) ≤ (d.abridge n).value ↔ (T : ℚ) ≤ d.value := by
  have hvalue : (T : ℚ) = value ⟨T, 0⟩ := (mul_one _).symm
  rw [hvalue]
  exact value_le_abridge_iff hn hT d

end Decimal

end ArithTree
