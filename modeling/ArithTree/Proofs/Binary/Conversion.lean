import Mathlib.Tactic.FieldSimp
import ArithTree.Proofs.Binary.Exact
import ArithTree.Proofs.Binary.Overflow

/-!
# What integers and numbers become in a format

The search for the nearest rank compares natural numbers of units. Here its result is the nearest number
by exact values, and from this follows what a conversion does, without a word on units.

* `Number.isNearest_nearest`: a rounded quotient is the number nearest to the exact quotient.
* `Number.ConvertsTo`: the sign is kept, infinity stays infinity, and a finite number becomes the nearest
  one. There is one such number exactly, the one that `convert` gives (`convertsTo_iff`).
* `Number.ConvertsTo.exact`: in a format that is not narrower nothing is rounded.
-/

namespace ArithTree

namespace Format

variable {F G : Format} {d j k : Nat}

/-- A sum of two magnitudes, over the denominator of a quotient of units. -/
theorem magnitude_add_magnitude (hd : 0 < d) :
    F.magnitude j + F.magnitude k =
      (((F.units j + F.units k) * d : Nat) : ℚ) / (d * F.unitsPerOne) := by
  have hd : (d : ℚ) ≠ 0 := by exact_mod_cast hd.ne'
  have hone := F.unitsPerOne_cast_pos.ne'
  unfold magnitude
  push_cast
  field_simp

/-! ## Formats of which one holds the other -/

/-- The units of a wider format are finer, its significands longer and its range larger. -/
theorem le_of_width_le (h : G.width ≤ F.width) :
    G.hiddenBit ≤ F.hiddenBit ∧ G.scale ≤ F.scale ∧
      G.units G.infinityRank * F.unitsPerOne ≤ F.units F.infinityRank * G.unitsPerOne := by
  revert h
  cases F <;> cases G <;> decide +kernel

theorem magnitude_infinityRank_le (h : G.width ≤ F.width) :
    G.magnitude G.infinityRank ≤ F.magnitude F.infinityRank := by
  obtain ⟨-, -, hrange⟩ := le_of_width_le h
  unfold magnitude
  rw [div_le_div_iff₀ G.unitsPerOne_cast_pos F.unitsPerOne_cast_pos]
  exact_mod_cast hrange

/-- With as many bits as a significand of the format has, and no more binary places than it has, a value is
one of its magnitudes, if there is no bound to them. -/
theorem exists_magnitude_of_significand {m p : Nat} (i : Nat) (hm : m ≤ 2 * F.hiddenBit)
    (hp : p ≤ F.scale) :
    ∃ j, F.magnitude j = ((m * Nat.pow 2 i : Nat) : ℚ) / (Nat.pow 2 p : Nat) := by
  -- The same significand, with the exponent counted in units.
  obtain ⟨e, hscale⟩ := Nat.exists_eq_add_of_le hp
  obtain ⟨j, hj⟩ := F.exists_units_eq (i + e) hm
  have hunits : F.units j = m * Nat.pow 2 i * Nat.pow 2 e := by
    rw [hj, Nat.mul_assoc]
    exact congrArg (m * ·) (Nat.pow_add ..)
  have hone : F.unitsPerOne = Nat.pow 2 p * Nat.pow 2 e := by
    unfold unitsPerOne
    rw [hscale]
    exact Nat.pow_add ..
  have hpos : ((Nat.pow 2 e : Nat) : ℚ) ≠ 0 := by exact_mod_cast (Nat.two_pow_pos e).ne'
  refine ⟨j, ?_⟩
  rw [magnitude, hunits, hone, Nat.cast_mul (m * Nat.pow 2 i), Nat.cast_mul (Nat.pow 2 p),
    mul_div_mul_right _ _ hpos]

/-- Every finite magnitude of a format is one of each wider format. -/
theorem exists_magnitude_eq (h : G.width ≤ F.width) (hk : k < G.infinityRank) :
    ∃ j, j < F.infinityRank ∧ F.magnitude j = G.magnitude k := by
  obtain ⟨hbits, hscale, -⟩ := le_of_width_le h
  obtain ⟨m, hunits, hm, -⟩ := G.exists_significand k
  obtain ⟨j, hj⟩ := F.exists_magnitude_of_significand (m := m) (k / G.hiddenBit - 1) (by omega) hscale
  have hsame : F.magnitude j = G.magnitude k := by
    rw [hj, magnitude, hunits]
    rfl
  refine ⟨j, ?_, hsame⟩
  rw [← F.magnitude_strictMono.lt_iff_lt, hsame]
  exact (G.magnitude_strictMono hk).trans_le (magnitude_infinityRank_le h)

end Format

namespace Number

variable {F G : Format} {x : Number G} {y z : Number F}

/-! ## Rounded quotients -/

/-- **A rounded quotient is the number nearest to the exact quotient**, and even between two numbers. -/
theorem isNearest_nearest (F : Format) (negative : Bool) (n : Nat) {d : Nat} (hd : 0 < d) :
    (nearest F negative n d).IsNearest (withSign negative (n / (d * F.unitsPerOne))) := by
  have hpos : (0 : ℚ) < d * F.unitsPerOne := mul_pos (by exact_mod_cast hd) F.unitsPerOne_cast_pos
  have hquotient : 2 * ((n : ℚ) / (d * F.unitsPerOne)) = (2 * n : Nat) / (d * F.unitsPerOne) := by
    push_cast
    rw [mul_div_assoc]
  have hle (a b : Nat) : (a : ℚ) / (d * F.unitsPerOne) ≤ b / (d * F.unitsPerOne) ↔ a ≤ b := by
    rw [div_le_div_iff_of_pos_right hpos, Nat.cast_le]
  have heq (a b : Nat) : (a : ℚ) / (d * F.unitsPerOne) = b / (d * F.unitsPerOne) ↔ a = b := by
    rw [div_left_inj' hpos.ne', Nat.cast_inj]
  have hneighbours : (nearest F negative n d).BetweenNeighbours (n / (d * F.unitsPerOne)) := by
    constructor
    · -- The search did not end at the rank before.
      intro hrank
      have hprev : (nearest F negative n d).rank - 1 < F.infinityRank :=
        Nat.lt_of_lt_of_le (Nat.sub_lt hrank Nat.one_pos) (F.nearestRank_le n d)
      have hnot := mt (Format.nearestRank_le_iff hd hprev).mpr
        (Nat.not_le.mpr (Nat.sub_lt hrank Nat.one_pos))
      rw [Nat.sub_add_cancel hrank] at hnot
      rw [hquotient, magnitude, Format.magnitude_add_magnitude hd, hle, heq]
      omega
    · -- It ended here, and not at the rank behind.
      intro hrank
      have hself := (Format.nearestRank_le_iff hd hrank).mp (Nat.le_refl _)
      rw [hquotient, magnitude, Format.magnitude_add_magnitude hd, hle, heq]
      omega
  exact hneighbours.isNearest (div_nonneg (Nat.cast_nonneg n) hpos.le)

/-- An integer becomes the number nearest to it. -/
theorem isNearest_ofInt (F : Format) (i : Int) : (ofInt F i).IsNearest i := by
  have h := isNearest_nearest F (decide (i < 0)) (i.natAbs * F.unitsPerOne) Nat.one_pos
  rwa [Nat.cast_mul, Nat.cast_one, one_mul, mul_div_cancel_right₀ _ F.unitsPerOne_cast_pos.ne',
    Nat.cast_natAbs, Int.cast_abs, withSign_abs_intCast] at h

/-! ## Conversion -/

/-- The number `y` is what becomes of `x` in the format of `y`. -/
structure ConvertsTo (x : Number G) (y : Number F) : Prop where
  negative_eq : y.negative = x.negative
  infinite : x.isInfinite → y.isInfinite
  nearest : x.isInfinite = false → y.IsNearest x.value

theorem convertsTo_convert (F : Format) (x : Number G) : x.ConvertsTo (x.convert F) := by
  unfold convert
  cases hx : x.isInfinite with
  | true =>
    rw [if_pos rfl]
    exact ⟨rfl, fun _ => isInfinite_iff.mpr rfl, fun h => absurd (hx.symm.trans h) nofun⟩
  | false =>
    rw [if_neg Bool.false_ne_true]
    refine ⟨rfl, fun h => absurd (hx.symm.trans h) nofun, fun _ => ?_⟩
    have h := isNearest_nearest F x.negative (x.units * F.unitsPerOne) G.unitsPerOne_pos
    rwa [Nat.cast_mul, mul_div_mul_right _ _ F.unitsPerOne_cast_pos.ne'] at h

theorem ConvertsTo.unique (hy : x.ConvertsTo y) (hz : x.ConvertsTo z) : z = y := by
  have hsign : z.negative = y.negative := hz.negative_eq.trans hy.negative_eq.symm
  cases hx : x.isInfinite with
  | true =>
    have hyrank := isInfinite_iff.mp (hy.infinite hx)
    have hzrank := isInfinite_iff.mp (hz.infinite hx)
    exact Number.ext hsign (hzrank.trans hyrank.symm)
  | false => exact (hy.nearest hx).unique (hz.nearest hx) hsign

/-- **There is one such number exactly, and `convert` gives it.** -/
theorem convertsTo_iff : x.ConvertsTo y ↔ x.convert F = y := by
  constructor
  · exact fun h => h.unique (convertsTo_convert F x)
  · rintro rfl
    exact convertsTo_convert F x

/-! ## Conversion without rounding -/

/-- A number becomes itself in its own format. -/
theorem convertsTo_self (x : Number F) : x.ConvertsTo x :=
  ⟨rfl, id, fun _ => isNearest_of_value_eq rfl⟩

/-- **A format that is not narrower has the number itself.** -/
theorem ConvertsTo.exact (h : x.ConvertsTo y) (hwidth : G.width ≤ F.width)
    (hx : x.isInfinite = false) : y.isInfinite = false ∧ y.value = x.value := by
  have hk : x.rank < G.infinityRank := isInfinite_eq_false_iff.mp hx
  obtain ⟨j, hj, hmagnitude⟩ := Format.exists_magnitude_eq hwidth hk
  let z : Number F := ⟨x.negative, j, hj.le⟩
  have hvalue : z.value = x.value := congrArg (withSign x.negative) hmagnitude
  obtain rfl : y = z := (isNearest_of_value_eq hvalue).unique (h.nearest hx) h.negative_eq
  exact ⟨isInfinite_eq_false_iff.mpr hj, hvalue⟩

end Number

end ArithTree
