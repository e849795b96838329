import ArithTree.Proofs.Binary.Ranks

/-!
# Rounding, without the search

`Format.nearestRank` looks for the rank below a quotient and compares the quotient with the point
halfway to the next one. Here is what it gives, said by the neighbours of the result only.

* `Format.floorRank_spec`: the rank that the search starts from is the one below.
* `Format.Rounds`: the values that belong to a rank reach halfway to both of its neighbours, and
  include these ends if the rank is even.
* `Format.Rounds.nearestRank_eq`: a value that belongs to a rank is rounded to it.
* `Format.nearestRank_units_mul`, `Format.exists_units_eq`: magnitudes are rounded to themselves, and all
  multiples of a power of two that fit in a significand are magnitudes.
-/

namespace ArithTree.Format

variable {F : Format} {n d k : Nat}

/-! ## The rank below -/

theorem log2_eq_of_lt_hiddenBit (h : n < F.hiddenBit) : n.log2 - F.fractionBits = 0 := by
  rcases Nat.eq_zero_or_pos n with rfl | hpos
  · exact Nat.zero_sub _
  · have hlog : n.log2 < F.fractionBits := (Nat.log2_lt (Nat.ne_of_gt hpos)).mpr h
    omega

/-- The leading bits of a number that has more than the fraction. -/
theorem leadingBits_bounds (h : F.hiddenBit ≤ n) :
    F.hiddenBit ≤ n / Nat.pow 2 (n.log2 - F.fractionBits) ∧
      n / Nat.pow 2 (n.log2 - F.fractionBits) < 2 * F.hiddenBit := by
  have hpos : n ≠ 0 := Nat.ne_of_gt (Nat.lt_of_lt_of_le F.hiddenBit_pos h)
  have hlog : F.fractionBits ≤ n.log2 := (Nat.le_log2 hpos).mpr h
  have hsplit : n.log2 = F.fractionBits + (n.log2 - F.fractionBits) := by omega
  generalize n.log2 - F.fractionBits = e at hsplit ⊢
  have hlower : F.hiddenBit * 2 ^ e ≤ n := by
    have hle := Nat.log2_self_le hpos
    rwa [hsplit, Nat.pow_add] at hle
  have hupper : n < 2 * F.hiddenBit * 2 ^ e := by
    have hlt := Nat.lt_log2_self (n := n)
    rwa [hsplit, Nat.pow_succ, Nat.pow_add, Nat.mul_comm _ 2, ← Nat.mul_assoc] at hlt
  exact ⟨(Nat.le_div_iff_mul_le (Nat.two_pow_pos e)).mpr hlower,
    (Nat.div_lt_iff_lt_mul (Nat.two_pow_pos e)).mpr hupper⟩

/-- **The largest rank whose magnitude is at most `n` units.** -/
theorem floorRank_spec (F : Format) (n : Nat) :
    F.units (F.floorRank n) ≤ n ∧ n < F.units (F.floorRank n + 1) := by
  unfold floorRank
  by_cases h : n < F.hiddenBit
  · rw [log2_eq_of_lt_hiddenBit h]
    have hrank : 0 * F.hiddenBit + n / Nat.pow 2 0 = n := by
      rw [Nat.zero_mul, Nat.zero_add]
      exact Nat.div_one n
    rw [hrank, F.units_of_le (Nat.le_of_lt h), F.units_of_le h]
    exact ⟨Nat.le_refl n, Nat.lt_succ_self n⟩
  · obtain ⟨hlower, hupper⟩ := leadingBits_bounds (Nat.not_lt.mp h)
    generalize n.log2 - F.fractionBits = e at hlower hupper ⊢
    have hdiv := Nat.div_add_mod n (Nat.pow 2 e)
    have hmod := Nat.mod_lt n (Nat.two_pow_pos e)
    obtain ⟨r, hr⟩ : ∃ r, n / Nat.pow 2 e = F.hiddenBit + r := Nat.exists_eq_add_of_le hlower
    rw [hr] at hupper hdiv ⊢
    have hrank : e * F.hiddenBit + (F.hiddenBit + r) = F.hiddenBit * (e + 1) + r := by
      rw [Nat.mul_succ, Nat.mul_comm e, Nat.add_assoc]
    rw [hrank, F.units_exponent e (by omega), Nat.add_assoc (F.hiddenBit * (e + 1)),
      F.units_exponent e (by omega), ← Nat.add_assoc F.hiddenBit, Nat.succ_mul]
    rw [Nat.mul_comm] at hdiv
    constructor
    · exact Nat.le.intro hdiv
    · rw [← hdiv]
      exact Nat.add_lt_add_left hmod _

/-! ## The values that belong to a rank -/

/-- The value of `n / d` units belongs to rank `k`. -/
structure Rounds (F : Format) (n d k : Nat) : Prop where
  lower : (F.units (k - 1) + F.units k) * d ≤ 2 * n
  upper : 2 * n ≤ (F.units k + F.units (k + 1)) * d
  even : (F.units (k - 1) + F.units k) * d = 2 * n ∨ 2 * n = (F.units k + F.units (k + 1)) * d →
    k % 2 = 0

/-- The rank below a value that belongs to a rank is that rank or the one before it. -/
theorem Rounds.eq_or_eq_succ {j : Nat} (h : F.Rounds n d k) (hd : 0 < d)
    (hle : F.units j * d ≤ n) (hlt : n < F.units (j + 1) * d) : k = j ∨ k = j + 1 := by
  have hj : j < k + 1 := by
    refine F.units_strictMono.lt_iff_lt.mp (Nat.lt_of_mul_lt_mul_right (a := d) ?_)
    have hnext : F.units k * d < F.units (k + 1) * d :=
      Nat.mul_lt_mul_of_pos_right (F.units_strictMono (Nat.lt_succ_self k)) hd
    have hupper := h.upper
    rw [Nat.add_mul] at hupper
    omega
  have hk : k - 1 < j + 1 := by
    refine F.units_strictMono.lt_iff_lt.mp (Nat.lt_of_mul_lt_mul_right (a := d) ?_)
    have hprev : F.units (k - 1) * d ≤ F.units k * d :=
      Nat.mul_le_mul_right d (F.units_strictMono.monotone (Nat.sub_le k 1))
    have hlower := h.lower
    rw [Nat.add_mul] at hlower
    omega
  omega

theorem Rounds.nearerRank_eq {j : Nat} (h : F.Rounds n d k) (hd : 0 < d)
    (hle : F.units j * d ≤ n) (hlt : n < F.units (j + 1) * d) : F.nearerRank n d j = k := by
  unfold nearerRank
  rcases h.eq_or_eq_succ hd hle hlt with rfl | rfl
  · split
    · rfl
    · rename_i hgt
      exact absurd h.upper (Nat.not_le.mpr (Nat.compare_eq_gt.mp hgt))
    · rename_i heq
      exact if_pos (h.even (Or.inr (Nat.compare_eq_eq.mp heq)))
  · have hlower := h.lower
    rw [Nat.add_sub_cancel] at hlower
    split
    · rename_i hlt'
      exact absurd hlower (Nat.not_le.mpr (Nat.compare_eq_lt.mp hlt'))
    · rfl
    · rename_i heq
      have heven := h.even (Or.inl (Nat.compare_eq_eq.mp heq).symm)
      exact if_neg (by omega)

/-- **A value that belongs to a rank is rounded to it.** -/
theorem Rounds.nearestRank_eq (h : F.Rounds n d k) (hd : 0 < d) (hk : k ≤ F.infinityRank) :
    F.nearestRank n d = k := by
  obtain ⟨hle, hlt⟩ := F.floorRank_spec (n / d)
  have hnearer := h.nearerRank_eq hd ((Nat.le_div_iff_mul_le hd).mp hle)
    ((Nat.div_lt_iff_lt_mul hd).mp hlt)
  unfold nearestRank
  rw [hnearer]
  exact Nat.min_eq_left hk

/-- A magnitude is rounded to itself. -/
theorem nearestRank_units_mul (hd : 0 < d) (hk : k ≤ F.infinityRank) :
    F.nearestRank (F.units k * d) d = k := by
  have hbelow : F.units (k - 1) * d ≤ F.units k * d :=
    Nat.mul_le_mul_right d (F.units_strictMono.monotone (Nat.sub_le ..))
  have habove : F.units k * d < F.units (k + 1) * d :=
    Nat.mul_lt_mul_of_pos_right (F.units_strictMono (Nat.lt_succ_self k)) hd
  refine Rounds.nearestRank_eq ⟨?_, ?_, fun hend => ?_⟩ hd hk
  · rw [Nat.add_mul]
    omega
  · rw [Nat.add_mul]
    omega
  · rw [Nat.add_mul, Nat.add_mul] at hend
    have heq : F.units (k - 1) * d = F.units k * d := by omega
    have hrank := F.units_strictMono.injective (Nat.eq_of_mul_eq_mul_right hd heq)
    omega

/-! ## Magnitudes with few significant bits -/

/-- A multiple of a power of two, with no more bits than a significand has, is a magnitude; the ranks
here go on beyond infinity. -/
theorem exists_units_eq (F : Format) {m : Nat} (e : Nat) (hm : m ≤ 2 * F.hiddenBit) :
    ∃ k, F.units k = m * Nat.pow 2 e := by
  obtain ⟨hle, hlt⟩ := F.floorRank_spec (m * Nat.pow 2 e)
  generalize F.floorRank (m * Nat.pow 2 e) = k at hle hlt
  -- The first rank whose spacing does not divide the power of two.
  have hlast : F.units (F.hiddenBit * (e + 2)) = 2 * F.hiddenBit * Nat.pow 2 e := by
    rw [Nat.two_mul, ← F.units_exponent e (Nat.le_refl _)]
    rfl
  rcases Nat.lt_or_ge k (F.hiddenBit * (e + 2)) with hk | hk
  · have hdvd : F.spacing k ∣ Nat.pow 2 e := by
      have hexponent : k / F.hiddenBit < e + 2 := Nat.div_lt_of_lt_mul hk
      exact Nat.pow_dvd_pow 2 (by omega)
    rw [F.units_succ] at hlt
    exact ⟨k, (F.eq_units_of_spacing_dvd (Nat.dvd_mul_left_of_dvd hdvd m) hlt
      (by have := F.spacing_pos k; omega)).symm⟩
  · refine ⟨k, Nat.le_antisymm hle (Nat.le_trans (Nat.mul_le_mul_right _ hm) ?_)⟩
    rw [← hlast]
    exact F.units_strictMono.monotone hk

end ArithTree.Format
