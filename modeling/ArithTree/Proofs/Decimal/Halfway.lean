import ArithTree.Json.Numeral
import ArithTree.Proofs.Binary.Halfway
import ArithTree.Proofs.Decimal.FirstDigits

/-!
# Decimals at halfway points

If only the first digits of a decimal are read, with a one in the place of all further ones, it is rounded
to the same number for all values but one kind: a halfway point has no more digits than are read, so the one
behind them does not matter, unless the digits that are read are those of a halfway point.

* `Format.exists_decimal_halfway`: halfway points have no more digits than are read.
* `Number.rank_ofDecimal_abridge_le_iff`: with further digits behind it a halfway point is rounded up.
-/

namespace ArithTree

namespace Json.Numeral

theorem digitsRead_pos (F : Format) : 0 < digitsRead F := by cases F <;> decide

/-- The bound of a format is a whole number with fewer digits than are read. -/
theorem overflow_lt_digitsRead (F : Format) : F.overflow < 10 ^ digitsRead F := by
  cases F <;> decide +kernel

end Json.Numeral

namespace Format

variable {F : Format} {k : Nat}

/-! ## Digits of halfway points -/

theorem halfway_digits_lt (F : Format) :
    4 * F.hiddenBit * 5 ^ (F.scale + 1) < 10 ^ Json.Numeral.digitsRead F := by
  cases F <;> decide +kernel

/-- **A halfway point has no more digits than are read.** -/
theorem exists_decimal_halfway (hk : k < F.infinityRank) : ∃ c : Decimal,
    c.coefficient < 10 ^ Json.Numeral.digitsRead F ∧ c.value = F.halfway k := by
  obtain ⟨m, hm, hsum⟩ := F.exists_halfway_significand k
  have hhalfway : F.halfway k = (m * 2 ^ (k / F.hiddenBit - 1) : ℚ) / 2 ^ (F.scale + 1) := by
    rw [halfway_eq, hsum, pow_succ']
    show ((m * 2 ^ (k / F.hiddenBit - 1) : Nat) : ℚ) / (2 * (2 ^ F.scale : Nat)) = _
    push_cast
    rfl
  generalize k / F.hiddenBit - 1 = j at hhalfway
  rcases Nat.le_total j (F.scale + 1) with hj | hj
  · -- As many factors two as are missing in the numerator make decimal places.
    obtain ⟨i, hi⟩ : ∃ i, F.scale + 1 = j + i := Nat.exists_eq_add_of_le hj
    refine ⟨⟨m * 5 ^ i, -i⟩, ?_, ?_⟩
    · refine Nat.lt_of_le_of_lt (Nat.mul_le_mul hm.le ?_) F.halfway_digits_lt
      exact Nat.pow_le_pow_right (by decide) (by omega)
    · rw [hhalfway, hi, Decimal.value, zpow_neg, zpow_natCast, pow_add]
      have hten : (10 : ℚ) ^ i = 2 ^ i * 5 ^ i := by rw [← mul_pow]; norm_num
      rw [hten]
      push_cast
      field_simp
  · -- The halfway point is a whole number.
    obtain ⟨i, rfl⟩ : ∃ i, j = F.scale + 1 + i := Nat.exists_eq_add_of_le hj
    have hwhole : F.halfway k = (m * 2 ^ i : Nat) := by
      rw [hhalfway, pow_add]
      push_cast
      field_simp
    refine ⟨⟨m * 2 ^ i, 0⟩, ?_, ?_⟩
    · have hle := halfway_le_overflow hk
      rw [hwhole] at hle
      exact Nat.lt_of_le_of_lt (by exact_mod_cast hle) (Json.Numeral.overflow_lt_digitsRead F)
    · rw [hwhole]
      exact mul_one _

end Format

namespace Number

variable {F : Format} {negative : Bool} {d : Decimal} {k : Nat}

/-! ## Decimals with too many digits -/

/-- **With further digits behind it a halfway point is rounded up**, whatever they are. -/
theorem rank_ofDecimal_abridge_le_iff (hd : 10 ^ Json.Numeral.digitsRead F ≤ d.coefficient)
    (hk : k < F.infinityRank) :
    (ofDecimal F negative (d.abridge (Json.Numeral.digitsRead F))).rank ≤ k ↔
      d.value < F.halfway k := by
  obtain ⟨c, hc, hvalue⟩ := Format.exists_decimal_halfway hk
  have hle := Decimal.value_le_abridge_iff (Json.Numeral.digitsRead_pos F) hc d
  have hlt := Decimal.value_lt_abridge_iff (Json.Numeral.digitsRead_pos F) hc hd
  rw [hvalue] at hle hlt
  rw [(isNearest_ofDecimal ..).rank_le_iff hk, ← not_le, ← not_le, hle]
  refine or_iff_left fun h => ?_
  exact (hlt.mpr (hle.mp h.1.ge)).ne h.1.symm

end Number

end ArithTree
