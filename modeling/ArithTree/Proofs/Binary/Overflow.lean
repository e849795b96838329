import ArithTree.Binary.Number
import ArithTree.Proofs.Binary.Nearest

/-!
# Where rounding overflows

Rounding goes on beyond the largest finite magnitude as if there were one more, a power of two, and
calls it infinity. So a quotient is rounded to infinity from halfway on, and not as soon as it exceeds
the largest finite magnitude.

* `Format.nearestRank_le_iff`: the quotients that are rounded to a rank or to a smaller one.
* `Format.largest`, `Format.overflow`: the largest finite magnitude, and the point halfway from it to
  the power of two, where infinity begins.
-/

namespace ArithTree

namespace Format

variable {F : Format} {n d k : Nat}

/-- The search ends at the rank that it starts from, or at the next one. -/
theorem nearerRank_eq_or (F : Format) (n d k : Nat) :
    F.nearerRank n d k = k ∨ F.nearerRank n d k = k + 1 := by
  unfold nearerRank
  split
  · exact Or.inl rfl
  · exact Or.inr rfl
  · exact (ite_eq_or_eq ..)

/-- It ends at the rank that it starts from below the halfway point, or there if the rank is even. -/
theorem nearerRank_le_iff : F.nearerRank n d k ≤ k ↔
    2 * n < (F.units k + F.units (k + 1)) * d ∨
      2 * n = (F.units k + F.units (k + 1)) * d ∧ k % 2 = 0 := by
  unfold nearerRank
  split
  · rename_i hlt
    exact iff_of_true (Nat.le_refl k) (Or.inl (Nat.compare_eq_lt.mp hlt))
  · rename_i hgt
    have hgt := Nat.compare_eq_gt.mp hgt
    omega
  · rename_i heq
    have heq := Nat.compare_eq_eq.mp heq
    split <;> omega

/-- **The quotients that are rounded to a finite rank or to a smaller one** are those below the point
halfway to the next rank, and this point if the rank is even. -/
theorem nearestRank_le_iff (hd : 0 < d) (hk : k < F.infinityRank) :
    F.nearestRank n d ≤ k ↔ 2 * n < (F.units k + F.units (k + 1)) * d ∨
      2 * n = (F.units k + F.units (k + 1)) * d ∧ k % 2 = 0 := by
  obtain ⟨hle, hlt⟩ := F.floorRank_spec (n / d)
  rw [Nat.le_div_iff_mul_le hd] at hle
  rw [Nat.div_lt_iff_lt_mul hd] at hlt
  have hmin : F.nearestRank n d ≤ k ↔ F.nearerRank n d (F.floorRank (n / d)) ≤ k := by
    unfold nearestRank
    omega
  rw [hmin]
  generalize F.floorRank (n / d) = j at hle hlt
  -- The search starts below `k`, at `k` itself, or above it.
  have hsearch := F.nearerRank_eq_or n d j
  have hnext : F.units k * d < F.units (k + 1) * d :=
    Nat.mul_lt_mul_of_pos_right (F.units_strictMono (Nat.lt_succ_self k)) hd
  have hmono {i i' : Nat} (h : i ≤ i') : F.units i * d ≤ F.units i' * d :=
    Nat.mul_le_mul_right d (F.units_strictMono.monotone h)
  rcases Nat.lt_trichotomy j k with hjk | rfl | hjk
  · have hstep : F.units (j + 1) * d ≤ F.units k * d := hmono hjk
    refine iff_of_true (by omega) (Or.inl ?_)
    rw [Nat.add_mul]
    omega
  · exact nearerRank_le_iff
  · have hstep : F.units (k + 1) * d ≤ F.units j * d := hmono hjk
    refine iff_of_false (by omega) ?_
    rw [Nat.add_mul]
    omega

/-! ## The end of the range -/

/-- All magnitudes of the format are below two to this power. -/
def exponentBound (F : Format) : Nat := Nat.pow 2 (F.exponentBits - 1)

/-- The largest finite magnitude, a whole number. -/
def largest (F : Format) : Nat :=
  Nat.pow 2 F.exponentBound - Nat.pow 2 (F.exponentBound - F.fractionBits - 1)

/-- The point halfway from the largest finite magnitude to the power of two that is next. -/
def overflow (F : Format) : Nat :=
  Nat.pow 2 F.exponentBound - Nat.pow 2 (F.exponentBound - F.fractionBits - 2)

theorem units_largest (F : Format) : F.units (F.infinityRank - 1) = F.largest * F.unitsPerOne := by
  cases F <;> decide +kernel

theorem units_overflow (F : Format) :
    F.units (F.infinityRank - 1) + F.units F.infinityRank = 2 * (F.overflow * F.unitsPerOne) := by
  cases F <;> decide +kernel

theorem largest_lt_overflow (F : Format) : F.largest < F.overflow := by cases F <;> decide +kernel

end Format

namespace Number

variable {F : Format}

/-- The largest finite number of the given sign. -/
def largest (negative : Bool) : Number F := ⟨negative, F.infinityRank - 1, Nat.sub_le ..⟩

end Number

end ArithTree
