import Mathlib.Data.Nat.Factorization.Basic
import ArithTree.Proofs.Json.Literals

/-!
# Significant digits

The digits of a decimal without the zeros in front of and behind them. They depend on its value only, not
on how a coefficient and an exponent share it.

* `Decimal.exists_significand`: a decimal that is not zero is a number that is not a multiple of ten,
  times a power of ten, and the digits of this number are the significant ones.
* `Decimal.significantDigits_eq_of_value`: decimals of the same value have the same significant digits.
-/

namespace ArithTree

namespace Json.Numeral

theorem dropTrailingZeros_append_zeros (ds : List Char) (z : Nat) :
    dropTrailingZeros (ds ++ List.replicate z '0') = dropTrailingZeros ds := by
  unfold dropTrailingZeros
  rw [List.reverse_append, List.reverse_replicate,
    List.dropWhile_append_of_pos fun c hc => beq_iff_eq.mpr (List.eq_of_mem_replicate hc)]

theorem dropTrailingZeros_eq_self {ds : List Char} (h : '0' ∉ ds.getLast?) :
    dropTrailingZeros ds = ds := by
  unfold dropTrailingZeros
  rw [← List.head?_reverse] at h
  cases hds : ds.reverse with
  | nil => exact (List.reverse_eq_nil_iff.mp hds).symm
  | cons c rest =>
    rw [hds] at h
    have hc : (c == '0') = false := beq_eq_false_iff_ne.mpr fun heq => h (congrArg some heq)
    have hdrop : (c :: rest).dropWhile (· == '0') = c :: rest :=
      List.dropWhile_cons_of_neg (Bool.eq_false_iff.mp hc)
    rw [hdrop, ← hds, List.reverse_reverse]

end Json.Numeral

namespace Decimal

variable {d d' : Decimal}

/-! ## Significant digits -/

/-- The digits of a decimal without zeros in front of and behind them; zero has none. -/
def significantDigits (d : Decimal) : List Char := Json.Numeral.dropTrailingZeros (digits d.coefficient)

/-- **The significant digits of a decimal** are those of a number that is not a multiple of ten. -/
theorem exists_significand (h : d.coefficient ≠ 0) :
    ∃ (s : Nat) (t : Int), s % 10 ≠ 0 ∧ d.value = s * 10 ^ t ∧ d.significantDigits = digits s := by
  obtain ⟨z, s, hs, hc⟩ := Nat.exists_eq_pow_mul_and_not_dvd h 10 (by decide)
  rw [Nat.dvd_iff_mod_eq_zero] at hs
  have hpos : 0 < s := by omega
  refine ⟨s, d.exponent + z, hs, ?_, ?_⟩
  · unfold value
    rw [hc, zpow_add₀ (by norm_num), zpow_natCast]
    push_cast
    ring
  · unfold significantDigits
    rw [hc, Nat.mul_comm, digits_mul_pow hpos, Json.Numeral.dropTrailingZeros_append_zeros,
      Json.Numeral.dropTrailingZeros_eq_self (zero_notMem_getLast?_digits hs)]

theorem significantDigits_of_coefficient_eq_zero (h : d.coefficient = 0) :
    d.significantDigits = [] := by
  unfold significantDigits
  rw [h]
  decide

theorem value_eq_zero_iff : d.value = 0 ↔ d.coefficient = 0 := by
  have hpow : (10 : ℚ) ^ d.exponent ≠ 0 := zpow_ne_zero _ (by norm_num)
  unfold value
  rw [mul_eq_zero_iff_right hpow, Nat.cast_eq_zero]

/-- Of two such products with the same value neither has the smaller power of ten. -/
theorem eq_of_mul_zpow_eq {s s' : Nat} {t t' : Int} (hs : s % 10 ≠ 0)
    (h : (s : ℚ) * 10 ^ t = s' * 10 ^ t') (hle : t ≤ t') : s = s' := by
  obtain ⟨k, rfl⟩ : ∃ k : Nat, t' = k + t := ⟨(t' - t).toNat, by omega⟩
  have hpow : (10 : ℚ) ^ t ≠ 0 := zpow_ne_zero _ (by norm_num)
  rw [zpow_add₀ (by norm_num), ← mul_assoc, mul_left_inj' hpow, zpow_natCast] at h
  have hnat : s = s' * 10 ^ k := by exact_mod_cast h
  cases k with
  | zero => rw [hnat, Nat.pow_zero, Nat.mul_one]
  | succ k =>
    rw [Nat.pow_succ, ← Nat.mul_assoc] at hnat
    omega

/-- **Decimals of the same value have the same significant digits.** -/
theorem significantDigits_eq_of_value (h : d.value = d'.value) :
    d.significantDigits = d'.significantDigits := by
  by_cases hzero : d.coefficient = 0
  · have hzero' : d'.coefficient = 0 := by rwa [← value_eq_zero_iff, ← h, value_eq_zero_iff]
    rw [significantDigits_of_coefficient_eq_zero hzero,
      significantDigits_of_coefficient_eq_zero hzero']
  · have hzero' : d'.coefficient ≠ 0 := by
      rwa [ne_eq, ← value_eq_zero_iff, ← h, value_eq_zero_iff]
    obtain ⟨s, t, hs, hvalue, hdigits⟩ := exists_significand hzero
    obtain ⟨s', t', hs', hvalue', hdigits'⟩ := exists_significand hzero'
    rw [hvalue, hvalue'] at h
    rcases le_total t t' with hle | hle
    · rw [hdigits, hdigits', eq_of_mul_zpow_eq hs h hle]
    · rw [hdigits, hdigits', eq_of_mul_zpow_eq hs' h.symm hle]

end Decimal

end ArithTree
