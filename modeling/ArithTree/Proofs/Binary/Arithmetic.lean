import ArithTree.Proofs.Binary.Layout

/-!
# Arithmetic that has nothing to round

An operation rounds its exact result once. If the format has a number of this value, the result is that
number, up to the sign of a zero.

* `Number.IsExactly`, `Value.IsExactly`: a finite number of the given value.
* `Value.IsExactly.add`, `Value.IsExactly.mul`, `Value.IsExactly.neg`: exact results.
* `Format.holds_intCast`: the integers up to two to the power of the bits of a significand.
-/

namespace ArithTree

variable {F : Format}

/-- A finite number of exactly this value. -/
structure Number.IsExactly (x : Number F) (q : ℚ) : Prop where
  finite : x.isInfinite = false
  value_eq : x.value = q

/-- A finite number of exactly this value, and not NaN. -/
def Value.IsExactly (v : Value F) (q : ℚ) : Prop := ∃ x, v = .number x ∧ x.IsExactly q

/-- The format has a finite number of exactly this value. -/
def Format.Holds (F : Format) (q : ℚ) : Prop := ∃ x : Number F, x.IsExactly q

namespace Number

variable {x y z : Number F} {p q : ℚ}

/-! ## Values in units -/

theorem value_mul_unitsPerOne (x : Number F) : x.value * F.unitsPerOne = x.signedUnits := by
  have hmagnitude : x.magnitude * F.unitsPerOne = x.units := F.magnitude_mul_unitsPerOne x.rank
  unfold value withSign signedUnits
  split
  · rw [neg_mul, hmagnitude]
    push_cast
    rfl
  · exact hmagnitude

theorem natAbs_signedUnits (x : Number F) : x.signedUnits.natAbs = x.units := by
  unfold signedUnits
  split <;> omega

theorem signedUnits_neg_iff (h : x.signedUnits ≠ 0) : x.signedUnits < 0 ↔ x.negative := by
  unfold signedUnits at h ⊢
  split at h
  · rename_i hsign
    rw [if_pos hsign]
    exact iff_of_true (by omega) hsign
  · rename_i hsign
    rw [if_neg hsign]
    exact iff_of_false (by omega) hsign

/-- An integer in units. -/
theorem IsExactly.signedUnits_eq {i : Int} (hx : x.IsExactly i) :
    x.signedUnits = i * F.unitsPerOne := by
  have h := x.value_mul_unitsPerOne
  rw [hx.value_eq] at h
  exact_mod_cast h.symm

/-! ## Sums -/

/-- The units of a finite number are rounded to it. -/
theorem nearest_signedUnits (h : x.signedUnits ≠ 0) :
    nearest F (decide (x.signedUnits < 0)) x.signedUnits.natAbs 1 = x := by
  refine Number.ext ?_ ?_
  · show decide (x.signedUnits < 0) = x.negative
    rw [Bool.eq_iff_iff, decide_eq_true_iff]
    exact signedUnits_neg_iff h
  · show F.nearestRank x.signedUnits.natAbs 1 = x.rank
    rw [natAbs_signedUnits, ← Nat.mul_one x.units]
    exact Format.nearestRank_units_mul Nat.one_pos x.rank_le

theorem isExactly_zero (negative : Bool) : (zero negative : Number F).IsExactly 0 :=
  ⟨isInfinite_eq_false_iff.mpr F.infinityRank_pos, value_eq_zero_iff.mpr rfl⟩

theorem IsExactly.add (hx : x.IsExactly p) (hy : y.IsExactly q) (h : F.Holds (p + q)) :
    (x.add y).IsExactly (p + q) := by
  obtain ⟨z, hz⟩ := h
  have hsum : x.signedUnits + y.signedUnits = z.signedUnits := by
    have hvalue : (x.value + y.value) * F.unitsPerOne = z.value * F.unitsPerOne := by
      rw [hx.value_eq, hy.value_eq, hz.value_eq]
    rw [add_mul, value_mul_unitsPerOne, value_mul_unitsPerOne, value_mul_unitsPerOne] at hvalue
    exact_mod_cast hvalue
  rw [add_of_finite hx.finite hy.finite, hsum]
  refine ⟨_, rfl, ?_⟩
  by_cases hzero : z.signedUnits = 0
  · have hvalue : (p + q) * F.unitsPerOne = 0 := by
      rw [← hz.value_eq, value_mul_unitsPerOne, hzero, Int.cast_zero]
    rw [if_pos hzero, (mul_eq_zero.mp hvalue).resolve_right F.unitsPerOne_cast_pos.ne']
    exact isExactly_zero _
  · rw [if_neg hzero, nearest_signedUnits hzero]
    exact hz

/-! ## Products and sign changes -/

theorem IsExactly.mul (hx : x.IsExactly p) (hy : y.IsExactly q) (h : F.Holds (p * q)) :
    (x.mul y).IsExactly (p * q) := by
  obtain ⟨z, hz⟩ := h
  have hmagnitude : x.magnitude * y.magnitude = z.magnitude := by
    rw [← abs_value, ← abs_value, ← abs_value, ← abs_mul, hx.value_eq, hy.value_eq, hz.value_eq]
  have hunits : x.units * y.units = z.units * F.unitsPerOne := by
    have hone := F.unitsPerOne_cast_pos.ne'
    rw [magnitude, magnitude, magnitude, Format.magnitude, Format.magnitude, Format.magnitude,
      div_mul_div_comm, div_eq_div_iff (mul_ne_zero hone hone) hone, ← mul_assoc,
      mul_left_inj' hone] at hmagnitude
    exact_mod_cast hmagnitude
  have hfinite : ¬ (x.isInfinite || y.isInfinite) := by
    rw [hx.finite, hy.finite]
    exact Bool.false_ne_true
  have hproduct : nearest F (x.negative != y.negative) (x.units * y.units) F.unitsPerOne =
      ⟨x.negative != y.negative, z.rank, z.rank_le⟩ := by
    refine Number.ext rfl ?_
    show F.nearestRank (x.units * y.units) F.unitsPerOne = z.rank
    rw [hunits]
    exact Format.nearestRank_units_mul F.unitsPerOne_pos z.rank_le
  have hvalue : x.value * y.value = withSign (x.negative != y.negative) z.magnitude := by
    rw [value, value, withSign_mul_withSign, hmagnitude]
  rw [mul_of_finite hfinite, hproduct, ← hx.value_eq, ← hy.value_eq, hvalue]
  exact ⟨_, rfl, hz.finite, rfl⟩

theorem IsExactly.neg (hx : x.IsExactly q) : x.neg.IsExactly (-q) := by
  refine ⟨hx.finite, ?_⟩
  rw [← hx.value_eq]
  exact withSign_not x.negative x.magnitude

end Number

namespace Value.IsExactly

variable {v w : Value F} {p q : ℚ}

/-- **A sum that the format holds is exact.** -/
theorem add (hv : v.IsExactly p) (hw : w.IsExactly q) (h : F.Holds (p + q)) :
    (v.add w).IsExactly (p + q) := by
  obtain ⟨x, rfl, hx⟩ := hv
  obtain ⟨y, rfl, hy⟩ := hw
  exact hx.add hy h

/-- **A product that the format holds is exact.** -/
theorem mul (hv : v.IsExactly p) (hw : w.IsExactly q) (h : F.Holds (p * q)) :
    (v.mul w).IsExactly (p * q) := by
  obtain ⟨x, rfl, hx⟩ := hv
  obtain ⟨y, rfl, hy⟩ := hw
  exact hx.mul hy h

theorem neg (hv : v.IsExactly q) : v.neg.IsExactly (-q) := by
  obtain ⟨x, rfl, hx⟩ := hv
  exact ⟨x.neg, rfl, hx.neg⟩

end Value.IsExactly

/-! ## Integers -/

namespace Format

/-- All integers up to this magnitude are numbers of the format. -/
def integerBound : Format → Nat
  | .binary32 => Nat.pow 2 24
  | .binary64 => Nat.pow 2 53

theorem integerBound_eq (F : Format) : F.integerBound = 2 * F.hiddenBit := by cases F <;> rfl

end Format

/-- Such an integer becomes a number without rounding. -/
theorem Number.isExactly_ofInt {i : Int} (hi : i.natAbs ≤ F.integerBound) :
    (ofInt F i).IsExactly i := by
  rw [F.integerBound_eq] at hi
  obtain ⟨k, hk, hunits⟩ := Format.exists_rank_of_le hi
  refine ⟨isInfinite_eq_false_iff.mpr ?_, value_ofInt hk.le hunits⟩
  rwa [rank_ofInt hk.le hunits]

theorem Format.holds_intCast {i : Int} (hi : i.natAbs ≤ F.integerBound) : F.Holds i :=
  ⟨_, Number.isExactly_ofInt hi⟩

end ArithTree
