import Mathlib.Data.List.Basic
import Mathlib.Tactic.Ring
import ArithTree.Decimal.Basic

/-!
# Digits

* `Decimal.pow_length_digits`: a number with so many digits lies between two powers of ten.
* `Decimal.digits_mul_pow`: a power of ten as a factor is that many zeros at the end.
* `Decimal.zero_notMem_head_digits`, `Decimal.zero_notMem_getLast?_digits`: no number starts with a zero
  but zero itself, and none ends with one but the multiples of ten.
-/

namespace ArithTree.Decimal

variable {n s z : Nat}

theorem digits_injective : Function.Injective digits := fun m n h => by
  rw [← ofDigitChars_digits m, h, ofDigitChars_digits]

theorem point_notMem_digits (n : Nat) : '.' ∉ digits n := fun h =>
  absurd (isDigit_of_mem_digits h) (by decide)

theorem length_digits_le {width n : Nat} (h : n < Nat.pow 10 (width + 1)) :
    (digits n).length ≤ width + 1 :=
  (Nat.length_toDigits_le_iff (by decide) (Nat.succ_pos width)).mpr h

/-- A number with so many digits, by the powers of ten around it. -/
theorem pow_length_digits {n : Nat} (hn : 0 < n) :
    10 ^ ((digits n).length - 1) ≤ n ∧ n < 10 ^ (digits n).length := by
  have hlength : 0 < (digits n).length := List.length_pos_iff.mpr (digits_ne_nil n)
  constructor
  · by_contra hlt
    have hone : 0 < (digits n).length - 1 := by
      refine Nat.pos_of_ne_zero fun hzero => hlt ?_
      rw [hzero]
      exact hn
    have hle := (Nat.length_toDigits_le_iff (b := 10) (by decide) hone).mpr (Nat.not_le.mp hlt)
    unfold digits at hlength hle
    omega
  · exact (Nat.length_toDigits_le_iff (by decide) hlength).mp (Nat.le_refl _)

theorem length_paddedDigits {width n : Nat} (h : n < Nat.pow 10 (width + 1)) :
    (paddedDigits (width + 1) n).length = width + 1 := by
  unfold paddedDigits
  rw [List.length_leftpad]
  exact Nat.max_eq_left (length_digits_le h)

theorem ofDigitChars_paddedDigits (width n : Nat) :
    Nat.ofDigitChars 10 (paddedDigits width n) 0 = n := by
  unfold paddedDigits List.leftpad
  rw [Nat.ofDigitChars_append, Nat.ofDigitChars_replicate_zero,
    Nat.mul_zero, ofDigitChars_digits]

theorem isDigit_of_mem_paddedDigits {c : Char} {width n : Nat} (h : c ∈ paddedDigits width n) :
    c.isDigit := by
  unfold paddedDigits List.leftpad at h
  rcases List.mem_append.mp h with h | h
  · rw [List.eq_of_mem_replicate h]
    decide
  · exact isDigit_of_mem_digits h

theorem point_notMem_paddedDigits (width n : Nat) : '.' ∉ paddedDigits width n := fun h =>
  absurd (isDigit_of_mem_paddedDigits h) (by decide)

/-! ## The first digit -/

theorem zero_notMem_head_digits {n : Nat} (hn : 0 < n) : '0' ∉ (digits n).head? := by
  induction n using Nat.strong_induction_on with
  | _ n ih =>
    unfold digits
    by_cases hlt : n < 10
    · rw [Nat.toDigits_of_lt_base hlt]
      intro hhead
      have hzero := Nat.digitChar_eq_zero.mp (Option.some.inj hhead)
      omega
    · rw [Nat.toDigits_of_base_le (by decide) (Nat.not_lt.mp hlt),
        List.head?_append_of_ne_nil _ Nat.toDigits_ne_nil]
      exact ih (n / 10) (by omega) (by omega)

/-! ## The last digit -/

theorem getLast?_digits (n : Nat) : (digits n).getLast? = some (Nat.digitChar (n % 10)) := by
  unfold digits
  by_cases h : n < 10
  · rw [Nat.toDigits_of_lt_base h, Nat.mod_eq_of_lt h]
    rfl
  · rw [Nat.toDigits_of_base_le (by decide) (Nat.not_lt.mp h), List.getLast?_append]
    rfl

theorem zero_notMem_getLast?_digits (h : n % 10 ≠ 0) : '0' ∉ (digits n).getLast? := by
  rw [getLast?_digits]
  intro hzero
  exact h (Nat.digitChar_eq_zero.mp (Option.some.inj hzero))

theorem zero_notMem_getLast?_paddedDigits {width : Nat} (h : n % 10 ≠ 0) :
    '0' ∉ (paddedDigits width n).getLast? := by
  unfold paddedDigits List.leftpad
  rw [List.getLast?_append, getLast?_digits]
  intro hzero
  exact h (Nat.digitChar_eq_zero.mp (Option.some.inj hzero))

/-- A power of ten as a factor is that many zeros at the end. -/
theorem digits_mul_pow (hs : 0 < s) (z : Nat) :
    digits (s * 10 ^ z) = digits s ++ List.replicate z '0' := by
  induction z with
  | zero => rw [Nat.pow_zero, Nat.mul_one, List.replicate_zero, List.append_nil]
  | succ z ih =>
    have hpos : 0 < s * 10 ^ z := Nat.mul_pos hs (Nat.pow_pos (by decide))
    have hten : s * 10 ^ (z + 1) = 10 * (s * 10 ^ z) + 0 := by ring
    rw [hten, digits, ← Nat.toDigits_append_toDigits (by decide) hpos (by decide),
      List.replicate_succ', ← List.append_assoc, ← ih]
    rfl

end ArithTree.Decimal
