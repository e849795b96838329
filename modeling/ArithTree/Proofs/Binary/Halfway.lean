import ArithTree.Proofs.Binary.Conversion

/-!
# Halfway points

Which number is nearest to a value is told by the points halfway between neighbouring magnitudes: by which
of them lie below the value, and whether the value is one of them.

* `Format.halfway`: the point halfway from a rank to the next one.
* `Number.IsNearest.rank_le_iff`: the ranks that a value is rounded to, by halfway points.
* `Number.IsNearest.isInfinite_iff`, `Number.IsNearest.eq_largest`: what is rounded to infinity, and what to
  the largest finite number.
* `Number.IsNearest.magnitude_le`, `Number.IsNearest.le_magnitude`: no number is passed in rounding.
* `Number.isNearest_convert_iff`: a value that is rounded to a wider format first ends at another number only
  if it is rounded onto a halfway point there, which is then rounded away from it (`Format.Crosses`).
-/

namespace ArithTree

namespace Format

variable {F G : Format} {k : Nat}

/-- The point halfway from the magnitude of a rank to the next one. -/
def halfway (F : Format) (k : Nat) : ℚ := (F.magnitude k + F.magnitude (k + 1)) / 2

theorem magnitude_lt_halfway (F : Format) (k : Nat) : F.magnitude k < F.halfway k := by
  have hlt : F.magnitude k < F.magnitude (k + 1) := F.magnitude_strictMono (Nat.lt_succ_self k)
  unfold halfway
  linarith

theorem halfway_lt_magnitude (F : Format) (k : Nat) : F.halfway k < F.magnitude (k + 1) := by
  have hlt : F.magnitude k < F.magnitude (k + 1) := F.magnitude_strictMono (Nat.lt_succ_self k)
  unfold halfway
  linarith

/-- No halfway point is a magnitude of its own format. -/
theorem magnitude_ne_halfway (F : Format) (j k : Nat) : F.magnitude j ≠ F.halfway k := by
  intro h
  have hlower := F.magnitude_lt_halfway k
  have hupper := F.halfway_lt_magnitude k
  rw [← h, F.magnitude_strictMono.lt_iff_lt] at hlower hupper
  omega

/-- A halfway point has one bit more than a significand, in half units. -/
theorem exists_halfway_significand (F : Format) (k : Nat) :
    ∃ m, m < 4 * F.hiddenBit ∧ F.units k + F.units (k + 1) = m * F.spacing k := by
  obtain ⟨m, hunits, hm, -⟩ := F.exists_significand k
  refine ⟨2 * m + 1, by omega, ?_⟩
  rw [F.units_succ, hunits]
  ring

theorem halfway_eq (F : Format) (k : Nat) :
    F.halfway k = ((F.units k + F.units (k + 1) : Nat) : ℚ) / (2 * F.unitsPerOne) := by
  unfold halfway magnitude
  rw [← add_div, div_div, mul_comm]
  push_cast
  rfl

/-! ## The ends of the range -/

theorem halfway_zero (F : Format) : F.halfway 0 = 1 / (2 * F.unitsPerOne) := by
  rw [halfway_eq, F.units_zero, zero_add, F.units_of_le F.hiddenBit_pos, Nat.cast_one]

theorem magnitude_largest (F : Format) : F.magnitude (F.infinityRank - 1) = F.largest := by
  rw [magnitude, F.units_largest, Nat.cast_mul]
  exact mul_div_cancel_right₀ _ F.unitsPerOne_cast_pos.ne'

/-- The range of a format ends at the halfway point before infinity. -/
theorem halfway_before_infinity (F : Format) : F.halfway (F.infinityRank - 1) = F.overflow := by
  have hone := F.unitsPerOne_cast_pos.ne'
  rw [halfway_eq, Nat.sub_add_cancel F.infinityRank_pos, F.units_overflow, div_eq_iff (by positivity)]
  push_cast
  ring

theorem halfway_strictMono (F : Format) : StrictMono F.halfway := fun j k h =>
  (F.halfway_lt_magnitude j).trans_le ((F.magnitude_strictMono.monotone h).trans
    (F.magnitude_lt_halfway k).le)

theorem halfway_le_overflow (hk : k < F.infinityRank) : F.halfway k ≤ F.overflow := by
  rw [← F.halfway_before_infinity]
  exact F.halfway_strictMono.monotone (by omega)

/-! ## Halfway points of other formats -/

/-- On the way from `r` by `p` to the format the point `p` is crossed: it is the one halfway from rank `k`
to the next, and is rounded away from `r`, down if the rank is even and up if it is odd. -/
structure Crosses (F : Format) (r p : ℚ) (k : Nat) : Prop where
  halfway : p = F.halfway k
  side : if k % 2 = 0 then p < r else r < p

/-- A wider format has room for one more bit, and at least one more place. -/
theorem le_of_width_lt (h : G.width < F.width) :
    2 * G.hiddenBit ≤ F.hiddenBit ∧ G.scale + 1 ≤ F.scale := by
  revert h
  cases F <;> cases G <;> decide +kernel

theorem eq_of_width_eq (h : G.width = F.width) : G = F := by
  revert h
  cases F <;> cases G <;> decide

theorem width_le_binary64 (F : Format) : F.width ≤ Format.width .binary64 := by
  cases F <;> decide

/-- **Halfway points are magnitudes of each wider format.** -/
theorem exists_magnitude_eq_halfway (h : G.width < F.width) (hk : k < G.infinityRank) :
    ∃ j, j ≤ F.infinityRank ∧ F.magnitude j = G.halfway k := by
  obtain ⟨hbits, hscale⟩ := le_of_width_lt h
  obtain ⟨m, hm, hsum⟩ := G.exists_halfway_significand k
  obtain ⟨j, hj⟩ := F.exists_magnitude_of_significand (m := m) (k / G.hiddenBit - 1) (by omega) hscale
  have hone : (Nat.pow 2 (G.scale + 1) : Nat) = 2 * G.unitsPerOne := Nat.pow_succ'
  have hsame : F.magnitude j = G.halfway k := by
    rw [hj, hone, halfway_eq, hsum, Nat.cast_mul 2]
    rfl
  have hbelow : G.halfway k ≤ G.magnitude G.infinityRank :=
    (G.halfway_lt_magnitude k).le.trans (G.magnitude_strictMono.monotone hk)
  refine ⟨j, ?_, hsame⟩
  rw [← F.magnitude_strictMono.le_iff_le, hsame]
  exact hbelow.trans (magnitude_infinityRank_le h.le)

end Format

namespace Number

variable {F G : Format} {x z : Number F} {y : Number G} {r : ℚ} {k j : Nat}

/-! ## Rounding, by halfway points -/

/-- **A value is rounded to a rank or to a smaller one** if it lies below the point halfway to the next
rank, or is this point and the rank is even. -/
theorem IsNearest.rank_le_iff (hx : x.IsNearest (withSign x.negative r)) (hk : k < F.infinityRank) :
    x.rank ≤ k ↔ r < F.halfway k ∨ r = F.halfway k ∧ k % 2 = 0 := by
  have hhalfway : 2 * F.halfway k = F.magnitude k + F.magnitude (k + 1) :=
    mul_div_cancel₀ _ two_ne_zero
  constructor
  · intro hle
    obtain ⟨hupper, heven⟩ := hx.above (Nat.lt_succ_of_le hle) hk
    have hmono : x.magnitude ≤ F.magnitude k := F.magnitude_strictMono.monotone hle
    rcases (show r ≤ F.halfway k by linarith).lt_or_eq with hr | hr
    · exact Or.inl hr
    · have hsame : x.magnitude = F.magnitude k := by linarith
      have hrank : x.rank = k := F.magnitude_strictMono.injective hsame
      exact Or.inr ⟨hr, hrank ▸ heven (by linarith)⟩
  · intro hr
    by_contra hgt
    obtain ⟨hlower, heven⟩ := hx.below (Nat.not_le.mp hgt)
    have hmono : F.magnitude (k + 1) ≤ x.magnitude :=
      F.magnitude_strictMono.monotone (Nat.not_le.mp hgt)
    rcases hr with hr | ⟨hr, hkeven⟩
    · linarith
    · have hsame : x.magnitude = F.magnitude (k + 1) := by linarith
      have hrank : x.rank = k + 1 := F.magnitude_strictMono.injective hsame
      have hodd := heven (by linarith)
      omega

/-- Ranks are told by which ranks they do not exceed. -/
theorem rank_eq_of_forall_le_iff {x' : Number F}
    (h : ∀ k < F.infinityRank, x.rank ≤ k ↔ x'.rank ≤ k) : x.rank = x'.rank := by
  have hx := x.rank_le
  have hx' := x'.rank_le
  rcases Nat.lt_trichotomy x.rank x'.rank with hlt | heq | hlt
  · have hle := (h x.rank (by omega)).mp (Nat.le_refl _)
    omega
  · exact heq
  · have hle := (h x'.rank (by omega)).mpr (Nat.le_refl _)
    omega

/-- Every magnitude has a nearest number of either sign. -/
theorem exists_isNearest (F : Format) (negative : Bool) (hr : 0 ≤ r) :
    ∃ x : Number F, x.negative = negative ∧ x.IsNearest (withSign negative r) := by
  refine ⟨nearest F negative (r.num.toNat * F.unitsPerOne) r.den, rfl, ?_⟩
  have h := isNearest_nearest F negative (r.num.toNat * F.unitsPerOne) r.pos
  have hnum : (r.num.toNat : ℚ) = r.num := by
    exact_mod_cast Int.toNat_of_nonneg (Rat.num_nonneg.mpr hr)
  rwa [Nat.cast_mul, mul_div_mul_right _ _ F.unitsPerOne_cast_pos.ne', hnum, Rat.num_div_den] at h

/-- **The nearest number is the one whose rank is told by the halfway points.** -/
theorem isNearest_iff_rank_le (hr : 0 ≤ r) :
    x.IsNearest (withSign x.negative r) ↔ ∀ k < F.infinityRank,
      x.rank ≤ k ↔ r < F.halfway k ∨ r = F.halfway k ∧ k % 2 = 0 := by
  refine ⟨fun h k hk => h.rank_le_iff hk, fun h => ?_⟩
  obtain ⟨z, hsign, hz⟩ := exists_isNearest F x.negative hr
  have hrank : x.rank = z.rank := by
    refine rank_eq_of_forall_le_iff fun k hk => (h k hk).trans ?_
    rw [← hsign] at hz
    exact (hz.rank_le_iff hk).symm
  have hsame : x = z := Number.ext hsign.symm hrank
  rw [hsame] at hz ⊢
  exact hz

/-! ## The ends of the range -/

/-- Zero is the nearest number to what is before all halfway points. -/
theorem isNearest_zero {negative : Bool} (hr : 0 ≤ r) (hlt : r < F.halfway 0) :
    (zero negative : Number F).IsNearest (withSign negative r) :=
  (isNearest_iff_rank_le hr).mpr fun k _ => iff_of_true k.zero_le
    (Or.inl (hlt.trans_le (F.halfway_strictMono.monotone k.zero_le)))

/-- Infinity is the nearest number to what is behind all halfway points. -/
theorem isNearest_infinity {negative : Bool} (hr : 0 ≤ r) (hlt : F.overflow < r) :
    (infinity negative : Number F).IsNearest (withSign negative r) := by
  refine (isNearest_iff_rank_le hr).mpr fun k hk => iff_of_false (Nat.not_le.mpr hk) fun h => ?_
  have hbefore : F.halfway k < r := (Format.halfway_le_overflow hk).trans_lt hlt
  exact h.elim hbefore.not_gt fun h => hbefore.ne' h.1

/-- **What is rounded to infinity**: the values that reach halfway from the largest finite magnitude to the
next power of two. -/
theorem IsNearest.isInfinite_iff (hx : x.IsNearest (withSign x.negative r)) :
    x.isInfinite ↔ F.overflow ≤ r := by
  have hpos := F.infinityRank_pos
  have hodd : (F.infinityRank - 1) % 2 = 1 := by cases F <;> decide
  have hlast : x.rank ≤ F.infinityRank - 1 ↔ r < F.overflow := by
    rw [hx.rank_le_iff (Nat.sub_lt hpos Nat.one_pos), F.halfway_before_infinity]
    exact or_iff_left fun h => absurd h.2 (by omega)
  have hrank := x.rank_le
  rw [Number.isInfinite_iff, ← not_lt, ← hlast]
  omega

/-- What is rounded to the largest finite number, from this number up to where infinity begins. -/
theorem IsNearest.eq_largest (hx : x.IsNearest (withSign x.negative r)) (hle : F.largest ≤ r)
    (hlt : r < F.overflow) : x = largest x.negative := by
  have htwo : 2 ≤ F.infinityRank := by cases F <;> decide
  have hsucc : F.infinityRank - 2 + 1 = F.infinityRank - 1 := by omega
  have hbefore := F.halfway_lt_magnitude (F.infinityRank - 2)
  rw [hsucc, F.magnitude_largest] at hbefore
  have hupper : x.rank ≤ F.infinityRank - 1 := by
    rw [hx.rank_le_iff (by omega), F.halfway_before_infinity]
    exact Or.inl hlt
  have hlower : ¬ x.rank ≤ F.infinityRank - 2 := by
    rw [hx.rank_le_iff (by omega)]
    exact fun h => h.elim (hbefore.trans_le hle).not_gt fun h => (hbefore.trans_le hle).ne' h.1
  refine Number.ext rfl ?_
  show x.rank = F.infinityRank - 1
  omega

/-! ## Rounding twice -/

/-- A conversion rounds the magnitude. -/
theorem isNearest_convert (hy : y.isInfinite = false) :
    (y.convert F).IsNearest (withSign (y.convert F).negative y.magnitude) := by
  have hconvert := convertsTo_convert F y
  rw [hconvert.negative_eq]
  exact hconvert.nearest hy

/-- A value is not rounded past a number that it does not exceed. -/
theorem IsNearest.magnitude_le (hx : x.IsNearest (withSign x.negative r))
    (hr : r ≤ F.magnitude j) : x.magnitude ≤ F.magnitude j := by
  by_contra hgt
  have hlt : j < x.rank := F.magnitude_strictMono.lt_iff_lt.mp (not_le.mp hgt)
  have hbelow := (hx.below hlt).1
  linarith

/-- A value is not rounded below a number that does not exceed it. -/
theorem IsNearest.le_magnitude (hx : x.IsNearest (withSign x.negative r)) (hj : j ≤ F.infinityRank)
    (hr : F.magnitude j ≤ r) : F.magnitude j ≤ x.magnitude := by
  by_contra hlt
  have hrank : x.rank < j := F.magnitude_strictMono.lt_iff_lt.mp (not_le.mp hlt)
  have habove := (hx.above hrank hj).1
  linarith

/-- Rounded to a wider format, a value stays on the same side of a halfway point unless it crosses it. -/
theorem IsNearest.halfway_iff (hy : y.IsNearest (withSign y.negative r)) (hwidth : F.width < G.width)
    (hk : k < F.infinityRank) (hcross : ¬ F.Crosses r y.magnitude k) :
    (y.magnitude < F.halfway k ∨ y.magnitude = F.halfway k ∧ k % 2 = 0) ↔
      r < F.halfway k ∨ r = F.halfway k ∧ k % 2 = 0 := by
  obtain ⟨j, hj, hhalfway⟩ := Format.exists_magnitude_eq_halfway hwidth hk
  have hle := hy.magnitude_le (j := j)
  have hge := hy.le_magnitude hj
  rw [hhalfway] at hle hge
  rcases lt_trichotomy r (F.halfway k) with hr | hr | hr
  · refine iff_of_true ?_ (Or.inl hr)
    rcases (hle hr.le).lt_or_eq with hlt | heq
    · exact Or.inl hlt
    · refine Or.inr ⟨heq, ?_⟩
      by_contra hodd
      exact hcross ⟨heq, by rw [if_neg hodd, heq]; exact hr⟩
  · rw [hr, le_antisymm (hle hr.le) (hge hr.ge)]
  · refine iff_of_false ?_ (fun h => h.elim hr.not_gt fun h => hr.ne' h.1)
    rintro (hlt | ⟨heq, heven⟩)
    · exact absurd (hge hr.le) (not_le.mpr hlt)
    · exact hcross ⟨heq, by rw [if_pos heven, heq]; exact hr⟩

/-- A halfway point is not crossed by what is rounded from it, because a wider format has it, and its own
format has none. -/
theorem IsNearest.not_crosses {i : Nat} (hy : y.IsNearest (withSign y.negative (F.halfway k)))
    (hwidth : F.width ≤ G.width) (hk : k < F.infinityRank) :
    ¬ F.Crosses (F.halfway k) y.magnitude i := by
  rintro ⟨hhalfway, hside⟩
  rcases hwidth.lt_or_eq with hlt | heq
  · obtain ⟨j, hj, hmagnitude⟩ := Format.exists_magnitude_eq_halfway hlt hk
    have hsame : y.magnitude = F.halfway k := by
      rw [← hmagnitude] at hy ⊢
      exact le_antisymm (hy.magnitude_le le_rfl) (hy.le_magnitude hj le_rfl)
    rw [hsame, ite_self] at hside
    exact lt_irrefl _ hside
  · obtain rfl := Format.eq_of_width_eq heq
    exact F.magnitude_ne_halfway _ _ hhalfway

/-- **By way of another format that is not narrower a value is rounded to the number nearest to it**, unless
it crosses a halfway point. -/
theorem isNearest_convert_iff (hy : y.IsNearest (withSign y.negative r)) (hr : 0 ≤ r)
    (hfinite : y.isInfinite = false) (hwidth : F.width ≤ G.width) :
    (y.convert F).IsNearest (withSign y.negative r) ↔
      ¬ ∃ k < F.infinityRank, F.Crosses r y.magnitude k := by
  rcases hwidth.lt_or_eq with hlt | heq
  · have hconvert : (y.convert F).negative = y.negative := (convertsTo_convert F y).negative_eq
    rw [← hconvert, isNearest_iff_rank_le hr]
    constructor
    · rintro h ⟨k, hk, hhalfway, hside⟩
      have hrank := (h k hk).symm.trans ((isNearest_convert hfinite).rank_le_iff hk)
      by_cases heven : k % 2 = 0
      · rw [if_pos heven, hhalfway] at hside
        exact (hrank.mpr (Or.inr ⟨hhalfway, heven⟩)).elim hside.not_gt fun h => hside.ne' h.1
      · rw [if_neg heven] at hside
        rw [hhalfway] at hside hrank
        exact (hrank.mp (Or.inl hside)).elim (lt_irrefl _) fun h => heven h.2
    · intro h k hk
      rw [(isNearest_convert hfinite).rank_le_iff hk]
      exact hy.halfway_iff hlt hk fun hcrosses => h ⟨k, hk, hcrosses⟩
  · obtain rfl := Format.eq_of_width_eq heq
    rw [convertsTo_iff.mp y.convertsTo_self]
    refine iff_of_true hy ?_
    rintro ⟨k, -, hhalfway, -⟩
    exact F.magnitude_ne_halfway _ _ hhalfway

end Number

end ArithTree
