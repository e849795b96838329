import ArithTree.Binary.Value
import ArithTree.Proofs.Binary.Nearest

/-!
# Arithmetic up to the sign of a zero

Two numbers have the same value if they are the same number or are both zero. Then an operation
cannot tell them apart by more than the sign of a zero: the sign of a zero factor only reaches a
product that is zero itself, or none, and that of a zero summand only an exact zero sum.

* `Number.sameValue_iff_eq_or`: what having the same value leaves open.
* `Value.Agrees`: values that are both NaN, or numbers of the same value.
* `Value.Agrees.add`, `Value.Agrees.mul`, `Value.Agrees.neg`: operands that agree have results that
  agree.
-/

namespace ArithTree

variable {F : Format}

/-- Zero units are rounded to zero. -/
theorem Format.nearestRank_zero (F : Format) {d : Nat} (hd : 0 < d) : F.nearestRank 0 d = 0 := by
  refine Rounds.nearestRank_eq ⟨?_, Nat.zero_le _, fun _ => rfl⟩ hd (Nat.zero_le _)
  rw [Nat.zero_sub, F.units_zero, Nat.add_zero, Nat.zero_mul]

namespace Number

variable {x y x' y' : Number F}

/-! ## Numbers of the same value -/

theorem signedRank_eq_iff :
    x.signedRank = y.signedRank ↔ x.rank = y.rank ∧ (x.rank = 0 ∨ x.negative = y.negative) := by
  obtain ⟨s, k, hk⟩ := x
  obtain ⟨s', k', hk'⟩ := y
  cases s <;> cases s' <;> simp [signedRank] <;> omega

/-- **Numbers of the same value are the same number, or zeros of either sign.** -/
theorem sameValue_iff_eq_or : x.sameValue y ↔ x = y ∨ x.isZero ∧ y.isZero := by
  rw [sameValue_iff, signedRank_eq_iff, isZero_iff, isZero_iff]
  constructor
  · rintro ⟨hrank, hzero | hsign⟩
    · exact Or.inr ⟨hzero, hrank ▸ hzero⟩
    · exact Or.inl (Number.ext hsign hrank)
  · rintro (rfl | ⟨hx, hy⟩)
    · exact ⟨rfl, Or.inr rfl⟩
    · exact ⟨hx.trans hy.symm, Or.inl hx⟩

theorem sameValue_refl (x : Number F) : x.sameValue x := sameValue_iff.mpr rfl

theorem sameValue_symm (h : x.sameValue y) : y.sameValue x :=
  sameValue_iff.mpr (sameValue_iff.mp h).symm

theorem sameValue_trans {z : Number F} (h : x.sameValue y) (h' : y.sameValue z) : x.sameValue z :=
  sameValue_iff.mpr ((sameValue_iff.mp h).trans (sameValue_iff.mp h'))

theorem rank_eq_of_sameValue (h : x.sameValue y) : x.rank = y.rank :=
  (signedRank_eq_iff.mp (sameValue_iff.mp h)).1

theorem isInfinite_eq_of_sameValue (h : x.sameValue y) : x.isInfinite = y.isInfinite := by
  unfold isInfinite
  rw [rank_eq_of_sameValue h]

theorem isZero_eq_of_sameValue (h : x.sameValue y) : x.isZero = y.isZero := by
  unfold isZero
  rw [rank_eq_of_sameValue h]

theorem eq_of_sameValue (h : x.sameValue y) (hx : ¬ x.isZero) : x = y :=
  (sameValue_iff_eq_or.mp h).resolve_right fun hzero => hx hzero.1

theorem sameValue_of_isZero (hx : x.isZero) (hy : y.isZero) : x.sameValue y :=
  sameValue_iff_eq_or.mpr (Or.inr ⟨hx, hy⟩)

/-- Different numbers of the same value are the two zeros. -/
theorem ne_iff_of_sameValue (h : x.sameValue y) :
    x ≠ y ↔ ∃ negative, x = zero negative ∧ y = zero !negative := by
  constructor
  · intro hne
    obtain ⟨hx, hy⟩ := (sameValue_iff_eq_or.mp h).resolve_left hne
    have hx := zero_eq_of_rank_eq_zero (isZero_iff.mp hx)
    have hy := zero_eq_of_rank_eq_zero (isZero_iff.mp hy)
    have hsign : y.negative = !x.negative := by
      rw [Bool.eq_not]
      intro heq
      rw [← hx, ← hy, heq] at hne
      exact hne rfl
    exact ⟨x.negative, hx.symm, hsign ▸ hy.symm⟩
  · rintro ⟨negative, rfl, rfl⟩
    exact (zero negative).ne_neg

theorem not_isZero_of_isInfinite (h : x.isInfinite) : ¬ x.isZero := by
  rw [isZero_iff, isInfinite_iff.mp h]
  exact Nat.ne_of_gt F.infinityRank_pos

theorem units_of_isZero (h : x.isZero) : x.units = 0 := by
  unfold units
  rw [isZero_iff.mp h, F.units_zero]

theorem signedUnits_eq_of_sameValue (h : x.sameValue y) : x.signedUnits = y.signedUnits := by
  obtain rfl | ⟨hx, hy⟩ := sameValue_iff_eq_or.mp h
  · rfl
  · unfold signedUnits
    rw [units_of_isZero hx, units_of_isZero hy]
    split <;> split <;> rfl

end Number

/-! ## Values that agree -/

/-- The values are both NaN, or numbers of the same value. -/
inductive Value.Agrees : Value F → Value F → Prop
  | nan : Agrees .nan .nan
  | number {x y : Number F} (h : x.sameValue y) : Agrees (.number x) (.number y)

theorem Value.Agrees.refl (v : Value F) : v.Agrees v := by
  cases v with
  | nan => exact .nan
  | number x => exact .number x.sameValue_refl

namespace Number

variable {x y x' y' : Number F}

/-! ## Sums -/

theorem add_of_isInfinite (h : x.isInfinite) :
    x.add y = if y.isInfinite && x.negative != y.negative then .nan else .number x := if_pos h

theorem add_of_isInfinite_right (hx : x.isInfinite = false) (hy : y.isInfinite) :
    x.add y = .number y := by
  unfold add
  rw [if_neg (Bool.eq_false_iff.mp hx), if_pos hy]

theorem add_of_finite (hx : x.isInfinite = false) (hy : y.isInfinite = false) :
    x.add y = .number (if x.signedUnits + y.signedUnits = 0 then zero (x.negative && y.negative)
      else nearest F (decide (x.signedUnits + y.signedUnits < 0))
        (x.signedUnits + y.signedUnits).natAbs 1) := by
  unfold add
  rw [if_neg (Bool.eq_false_iff.mp hx), if_neg (Bool.eq_false_iff.mp hy)]

theorem add_agrees (hx : x.sameValue x') (hy : y.sameValue y') : (x.add y).Agrees (x'.add y') := by
  have hxi := isInfinite_eq_of_sameValue hx
  have hyi := isInfinite_eq_of_sameValue hy
  by_cases hyinf : y.isInfinite
  · obtain rfl := eq_of_sameValue hy (not_isZero_of_isInfinite hyinf)
    by_cases hxinf : x.isInfinite
    · obtain rfl := eq_of_sameValue hx (not_isZero_of_isInfinite hxinf)
      exact .refl _
    · rw [Bool.not_eq_true] at hxinf
      rw [add_of_isInfinite_right hxinf hyinf, add_of_isInfinite_right (hxi ▸ hxinf) hyinf]
      exact .refl _
  · rw [Bool.not_eq_true] at hyinf
    by_cases hxinf : x.isInfinite
    · obtain rfl := eq_of_sameValue hx (not_isZero_of_isInfinite hxinf)
      rw [add_of_isInfinite hxinf, add_of_isInfinite hxinf, hyinf, ← hyi, hyinf]
      exact .refl _
    · rw [Bool.not_eq_true] at hxinf
      rw [add_of_finite hxinf hyinf, add_of_finite (hxi ▸ hxinf) (hyi ▸ hyinf),
        signedUnits_eq_of_sameValue hx, signedUnits_eq_of_sameValue hy]
      split
      · exact .number (sameValue_of_isZero rfl rfl)
      · exact .refl _

/-! ## Products -/

theorem mul_of_isInfinite (h : x.isInfinite || y.isInfinite) :
    x.mul y = if x.isZero || y.isZero then .nan
      else .number (infinity (x.negative != y.negative)) := if_pos h

theorem mul_of_finite (h : ¬ (x.isInfinite || y.isInfinite)) :
    x.mul y = .number (nearest F (x.negative != y.negative) (x.units * y.units) F.unitsPerOne) :=
  if_neg h

theorem isZero_nearest_zero (negative : Bool) : (nearest F negative 0 F.unitsPerOne).isZero :=
  isZero_iff.mpr (F.nearestRank_zero F.unitsPerOne_pos)

/-- The product of a zero and a finite number is zero. -/
theorem exists_mul_of_isZero (h : ¬ (x.isInfinite || y.isInfinite)) (hzero : x.isZero || y.isZero) :
    ∃ z : Number F, z.isZero ∧ x.mul y = .number z := by
  have hproduct : x.units * y.units = 0 := by
    rw [Nat.mul_eq_zero]
    exact ((Bool.or_eq_true ..).mp hzero).imp units_of_isZero units_of_isZero
  rw [mul_of_finite h, hproduct]
  exact ⟨_, isZero_nearest_zero _, rfl⟩

theorem mul_agrees (hx : x.sameValue x') (hy : y.sameValue y') : (x.mul y).Agrees (x'.mul y') := by
  have hinf : (x.isInfinite || y.isInfinite) = (x'.isInfinite || y'.isInfinite) := by
    rw [isInfinite_eq_of_sameValue hx, isInfinite_eq_of_sameValue hy]
  have hzeros : (x.isZero || y.isZero) = (x'.isZero || y'.isZero) := by
    rw [isZero_eq_of_sameValue hx, isZero_eq_of_sameValue hy]
  by_cases hzero : x.isZero || y.isZero
  · by_cases h : x.isInfinite || y.isInfinite
    · rw [mul_of_isInfinite h, mul_of_isInfinite (hinf ▸ h), if_pos hzero, if_pos (hzeros ▸ hzero)]
      exact .nan
    · obtain ⟨z, hz, hmul⟩ := exists_mul_of_isZero h hzero
      obtain ⟨z', hz', hmul'⟩ := exists_mul_of_isZero (hinf ▸ h) (hzeros ▸ hzero)
      rw [hmul, hmul']
      exact .number (sameValue_of_isZero hz hz')
  · obtain ⟨hx', hy'⟩ := not_or.mp (mt (Bool.or_eq_true ..).mpr hzero)
    rw [eq_of_sameValue hx hx', eq_of_sameValue hy hy']
    exact .refl _

theorem neg_sameValue (h : x.sameValue y) : x.neg.sameValue y.neg := by
  rw [sameValue_iff, signedRank_neg, signedRank_neg, sameValue_iff.mp h]

end Number

/-! ## Operations on values -/

namespace Value.Agrees

variable {v w v' w' : Value F}

theorem add (hv : v.Agrees v') (hw : w.Agrees w') : (v.add w).Agrees (v'.add w') := by
  cases hv with
  | nan => exact .nan
  | number hx =>
    cases hw with
    | nan => exact .nan
    | number hy => exact Number.add_agrees hx hy

theorem mul (hv : v.Agrees v') (hw : w.Agrees w') : (v.mul w).Agrees (v'.mul w') := by
  cases hv with
  | nan => exact .nan
  | number hx =>
    cases hw with
    | nan => exact .nan
    | number hy => exact Number.mul_agrees hx hy

theorem neg (hv : v.Agrees v') : v.neg.Agrees v'.neg := by
  cases hv with
  | nan => exact .nan
  | number hx => exact .number (Number.neg_sameValue hx)

end Value.Agrees

end ArithTree
