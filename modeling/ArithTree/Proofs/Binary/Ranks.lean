import Mathlib.Order.Monotone.Basic
import ArithTree.Binary.Format

/-!
# The ladder of magnitudes

Ranks count the magnitudes of a format from zero. Here is what lies between two neighbours.

* `Format.spacing`: the distance from a rank to the next one, a power of two that all ranks with the
  same exponent field share (`units_succ`).
* `units_strictMono`: a larger rank is a larger magnitude.
* `exists_significand`: every magnitude is a significand times its spacing, and so a multiple of all
  smaller spacings (`spacing_dvd_units`).
-/

namespace ArithTree.Format

variable (F : Format)

/-- The distance from the magnitude of rank `k` to the next one. The subnormals are spaced like the
first normal magnitudes. -/
def spacing (k : Nat) : Nat := Nat.pow 2 (k / F.hiddenBit - 1)

theorem spacing_pos (k : Nat) : 0 < F.spacing k := Nat.two_pow_pos _

theorem spacing_dvd_spacing {j k : Nat} (h : j ≤ k) : F.spacing j ∣ F.spacing k :=
  Nat.pow_dvd_pow 2 (Nat.sub_le_sub_right (Nat.div_le_div_right h) 1)

theorem spacing_mono {j k : Nat} (h : j ≤ k) : F.spacing j ≤ F.spacing k :=
  Nat.le_of_dvd (F.spacing_pos k) (F.spacing_dvd_spacing h)

/-! ## From one rank to the next -/

theorem spacing_of_lt {k : Nat} (h : k < F.hiddenBit) : F.spacing k = 1 := by
  unfold spacing
  rw [Nat.div_eq_of_lt h]

/-- The subnormal magnitudes and the first normal one. -/
theorem units_of_le {k : Nat} (h : k ≤ F.hiddenBit) : F.units k = k := by
  rcases Nat.lt_or_eq_of_le h with hlt | rfl
  · exact F.units_subnormal hlt
  · rw [F.units_normal (Nat.le_refl _), Nat.mod_self, Nat.div_self F.hiddenBit_pos]
    exact Nat.mul_one _

theorem hiddenBit_mul_add_div (q : Nat) {r : Nat} (hr : r < F.hiddenBit) :
    (F.hiddenBit * q + r) / F.hiddenBit = q := by
  rw [Nat.mul_add_div F.hiddenBit_pos, Nat.div_eq_of_lt hr, Nat.add_zero]

theorem spacing_normal (q : Nat) {r : Nat} (hr : r < F.hiddenBit) :
    F.spacing (F.hiddenBit * (q + 1) + r) = Nat.pow 2 q := by
  unfold spacing
  rw [F.hiddenBit_mul_add_div _ hr]
  rfl

/-- The normal magnitudes with one exponent field, and the first one with the next. -/
theorem units_exponent (q : Nat) {r : Nat} (hr : r ≤ F.hiddenBit) :
    F.units (F.hiddenBit * (q + 1) + r) = (F.hiddenBit + r) * Nat.pow 2 q := by
  have hle : F.hiddenBit ≤ F.hiddenBit * (q + 1) := Nat.le_mul_of_pos_right _ (Nat.succ_pos q)
  rw [F.units_normal (by omega)]
  rcases Nat.lt_or_eq_of_le hr with hlt | rfl
  · rw [F.hiddenBit_mul_add_div _ hlt, Nat.mul_add_mod, Nat.mod_eq_of_lt hlt]
    rfl
  · rw [← Nat.mul_succ, Nat.mul_mod_right, Nat.mul_div_cancel_left _ F.hiddenBit_pos]
    show (F.hiddenBit + 0) * 2 ^ (q + 1) = (F.hiddenBit + F.hiddenBit) * 2 ^ q
    rw [Nat.add_zero, ← Nat.two_mul, Nat.pow_succ, Nat.mul_comm (2 ^ q), ← Nat.mul_assoc,
      Nat.mul_comm F.hiddenBit]

/-- **Neighbouring magnitudes are one spacing apart**, also where the exponent field changes. -/
theorem units_succ (k : Nat) : F.units (k + 1) = F.units k + F.spacing k := by
  by_cases hk : k < F.hiddenBit
  · rw [F.units_of_le hk, F.units_subnormal hk, F.spacing_of_lt hk]
  · obtain ⟨q, r, hr, rfl⟩ : ∃ q r, r < F.hiddenBit ∧ k = F.hiddenBit * (q + 1) + r := by
      have hpos : 0 < k / F.hiddenBit := Nat.div_pos (Nat.not_lt.mp hk) F.hiddenBit_pos
      refine ⟨k / F.hiddenBit - 1, k % F.hiddenBit, Nat.mod_lt _ F.hiddenBit_pos, ?_⟩
      rw [Nat.sub_add_cancel hpos]
      exact (Nat.div_add_mod k F.hiddenBit).symm
    rw [Nat.add_assoc, F.units_exponent q hr, F.units_exponent q (Nat.le_of_lt hr),
      F.spacing_normal q hr]
    exact Nat.succ_mul (F.hiddenBit + r) (Nat.pow 2 q)

/-! ## The order of the magnitudes -/

theorem units_strictMono : StrictMono F.units := by
  refine strictMono_nat_of_lt_succ fun k => ?_
  rw [F.units_succ]
  exact Nat.lt_add_of_pos_right (F.spacing_pos k)

theorem units_zero : F.units 0 = 0 := F.units_subnormal F.hiddenBit_pos

/-- Below a rank the magnitudes are no farther apart than above it. -/
theorem units_le_pred_add (k : Nat) : F.units k ≤ F.units (k - 1) + F.spacing k := by
  cases k with
  | zero => exact Nat.le_add_right _ _
  | succ k =>
    rw [Nat.add_sub_cancel, F.units_succ]
    exact Nat.add_le_add_left (F.spacing_mono (Nat.le_succ k)) _

/-- A magnitude is its significand times its spacing. A significand without the hidden bit is that of a
subnormal magnitude. -/
theorem exists_significand (k : Nat) : ∃ m, F.units k = m * F.spacing k ∧ m < 2 * F.hiddenBit ∧
    (F.hiddenBit ≤ m ∨ F.spacing k = 1) := by
  rcases Nat.lt_or_ge k F.hiddenBit with hk | hk
  · refine ⟨k, ?_, by omega, Or.inr (F.spacing_of_lt hk)⟩
    rw [F.units_subnormal hk, F.spacing_of_lt hk, Nat.mul_one]
  · have hmod := Nat.mod_lt k F.hiddenBit_pos
    exact ⟨F.hiddenBit + k % F.hiddenBit, F.units_normal hk, by omega, Or.inl (Nat.le_add_right ..)⟩

theorem spacing_dvd_units (k : Nat) : F.spacing k ∣ F.units k := by
  obtain ⟨m, hunits, -⟩ := F.exists_significand k
  rw [hunits]
  exact Nat.dvd_mul_left _ _

/-- A multiple of the spacing that is less than a spacing away from a magnitude is that magnitude. -/
theorem eq_units_of_spacing_dvd {k n : Nat} (hdvd : F.spacing k ∣ n)
    (hbelow : n < F.units k + F.spacing k) (habove : F.units k < n + F.spacing k) :
    n = F.units k := by
  have hunits : F.spacing k ∣ F.units k := F.spacing_dvd_units k
  have hle : n - F.units k = 0 := Nat.eq_zero_of_dvd_of_lt (Nat.dvd_sub hdvd hunits) (by omega)
  have hge : F.units k - n = 0 := Nat.eq_zero_of_dvd_of_lt (Nat.dvd_sub hunits hdvd) (by omega)
  omega

/-- Of the spacing of a magnitude and the value one, one is a multiple of the other. -/
theorem spacing_dvd_unitsPerOne_or (k : Nat) :
    F.spacing k ∣ F.unitsPerOne ∨ F.unitsPerOne ∣ F.spacing k := by
  rcases Nat.le_total (k / F.hiddenBit - 1) F.scale with hle | hle
  · exact Or.inl (Nat.pow_dvd_pow 2 hle)
  · exact Or.inr (Nat.pow_dvd_pow 2 hle)

end ArithTree.Format
