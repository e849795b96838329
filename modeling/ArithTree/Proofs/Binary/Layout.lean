import Mathlib.Data.Rat.Floor
import ArithTree.Proofs.Binary.Exact
import ArithTree.Proofs.Binary.Zeros
import ArithTree.Proofs.Json.Literals

/-!
# Integral numbers, and how numbers are written in trees

A number is integral if it equals its own floor, and is then written without a point (`SPEC_FULL.md`,
4.1, render). The floor is rounded to the format like any result, but there is nothing to round: a number
that is not integral is so small that the format has all whole numbers around it.

* `Number.value_floor`: the floor of a finite number is the exact floor of its value.
* `Number.isIntegral_iff_floor`, `Number.isIntegral_iff`: the integral numbers.
* `Number.text_layout`: the texts of integral numbers are their exact digits; all others have a point,
  and no zero at the end.
-/

namespace ArithTree

namespace Format

variable {F : Format} {n k : Nat}

/-! ## Whole numbers in a format -/

/-- The rank from which on magnitudes are at least one apart. -/
def wholeRank (F : Format) : Nat := F.hiddenBit * (F.scale + 1)

theorem spacing_wholeRank (F : Format) : F.spacing F.wholeRank = F.unitsPerOne :=
  F.spacing_normal F.scale F.hiddenBit_pos

theorem units_wholeRank (F : Format) : F.units F.wholeRank = F.hiddenBit * F.unitsPerOne :=
  F.units_exponent F.scale (Nat.zero_le _)

/-- A magnitude with something behind the binary point is below all of these. -/
theorem units_lt_of_not_dvd (h : ¬ F.unitsPerOne ∣ F.units k) :
    F.units k < F.hiddenBit * F.unitsPerOne := by
  rw [← F.units_wholeRank]
  refine F.units_strictMono (Nat.not_le.mp fun hle => h ?_)
  rw [← F.spacing_wholeRank]
  exact Nat.dvd_trans (F.spacing_dvd_spacing hle) (F.spacing_dvd_units k)

/-- The whole numbers that have no more bits than a significand, and the next one, are magnitudes. -/
theorem exists_rank_of_le (hn : n ≤ 2 * F.hiddenBit) :
    ∃ k, k < F.infinityRank ∧ F.units k = n * F.unitsPerOne := by
  obtain ⟨k, hk⟩ := F.exists_units_eq F.scale hn
  refine ⟨k, ?_, hk⟩
  have hlast : F.units (F.wholeRank + F.hiddenBit) = 2 * F.hiddenBit * F.unitsPerOne := by
    rw [Nat.two_mul]
    exact F.units_exponent F.scale (Nat.le_refl _)
  refine Nat.lt_of_le_of_lt (m := F.wholeRank + F.hiddenBit) ?_ (by cases F <;> decide)
  rw [← F.units_strictMono.le_iff_le, hk, hlast]
  exact Nat.mul_le_mul_right _ hn

theorem magnitude_eq_iff : F.magnitude k = n ↔ F.units k = n * F.unitsPerOne := by
  rw [magnitude, div_eq_iff F.unitsPerOne_cast_pos.ne']
  exact_mod_cast Iff.rfl

end Format

namespace Number

variable {F : Format} {x y : Number F}

/-! ## Integral numbers -/

theorem value_eq_zero_iff : x.value = 0 ↔ x.rank = 0 := by
  rw [← abs_eq_zero, abs_value, magnitude, ← F.magnitude_zero]
  exact F.magnitude_strictMono.injective.eq_iff

theorem sameValue_iff_value : x.sameValue y ↔ x.value = y.value := by
  rw [sameValue_iff, signedRank_eq_iff]
  constructor
  · rintro ⟨hrank, hzero | hsign⟩
    · rw [value_eq_zero_iff.mpr hzero, value_eq_zero_iff.mpr (hrank ▸ hzero)]
    · rw [value, value, magnitude, magnitude, hrank, hsign]
  · intro h
    have hmagnitude : x.magnitude = y.magnitude := by rw [← abs_value, h, abs_value]
    have hrank : x.rank = y.rank := F.magnitude_strictMono.injective hmagnitude
    refine ⟨hrank, ?_⟩
    by_cases hsign : x.negative = y.negative
    · exact Or.inr hsign
    · have hopposite : x.value = -x.value := by
        conv_rhs => rw [h]
        rw [value, value, hmagnitude, Bool.eq_not.mpr hsign]
        exact withSign_not y.negative y.magnitude
      exact Or.inl (value_eq_zero_iff.mp (self_eq_neg.mp hopposite))

/-- An integer that is a magnitude of the format is not rounded. -/
theorem rank_ofInt {i : Int} {k : Nat} (hk : k ≤ F.infinityRank)
    (hi : F.units k = i.natAbs * F.unitsPerOne) : (ofInt F i).rank = k := by
  show F.nearestRank (i.natAbs * F.unitsPerOne) 1 = k
  rw [← hi, ← Nat.mul_one (F.units k)]
  exact Format.nearestRank_units_mul Nat.one_pos hk

theorem value_ofInt {i : Int} {k : Nat} (hk : k ≤ F.infinityRank)
    (hi : F.units k = i.natAbs * F.unitsPerOne) : (ofInt F i).value = i := by
  have hmagnitude : (ofInt F i).magnitude = i.natAbs := by
    rw [magnitude, rank_ofInt hk hi]
    exact Format.magnitude_eq_iff.mpr hi
  rw [value, hmagnitude, Nat.cast_natAbs, Int.cast_abs]
  exact withSign_abs_intCast i

/-- The largest integer that is not above a number. Infinities are their own floor, and a zero has the
sign of the number. -/
def floor (x : Number F) : Number F :=
  if x.isInfinite then x
  else if ⌊x.value⌋ = 0 then zero x.negative
  else ofInt F ⌊x.value⌋

/-- **The integral numbers** are the infinities and the integers. -/
theorem isIntegral_iff : x.isIntegral ↔ x.isInfinite ∨ ∃ k : Int, x.value = k := by
  have hunits : x.units % F.unitsPerOne == 0 ↔ ∃ k : Int, x.value = k := by
    rw [beq_iff_eq, ← Nat.dvd_iff_mod_eq_zero]
    constructor
    · rintro ⟨n, hn⟩
      have hmagnitude : x.magnitude = n := Format.magnitude_eq_iff.mpr (hn.trans (Nat.mul_comm ..))
      rw [value, hmagnitude]
      cases x.negative with
      | true => exact ⟨-n, by rw [withSign, if_pos rfl]; push_cast; rfl⟩
      | false => exact ⟨n, by rw [withSign, if_neg Bool.false_ne_true]; push_cast; rfl⟩
    · rintro ⟨k, hk⟩
      have hmagnitude : F.magnitude x.rank = k.natAbs := by
        rw [Nat.cast_natAbs, Int.cast_abs, ← hk, abs_value, magnitude]
      exact ⟨k.natAbs, (Format.magnitude_eq_iff.mp hmagnitude).trans (Nat.mul_comm ..)⟩
  unfold isIntegral
  rw [Bool.or_eq_true, hunits]

/-- The floor of a finite number is a magnitude of the format. -/
theorem exists_rank_floor (hx : x.isInfinite = false) :
    ∃ k, k ≤ F.infinityRank ∧ F.units k = ⌊x.value⌋.natAbs * F.unitsPerOne := by
  by_cases hdvd : F.unitsPerOne ∣ x.units
  · have hintegral : x.isIntegral := by
      unfold isIntegral
      rw [hx, Bool.false_or, beq_iff_eq]
      exact Nat.mod_eq_zero_of_dvd hdvd
    obtain ⟨k, hk⟩ := (isIntegral_iff.mp hintegral).resolve_left (Bool.eq_false_iff.mp hx)
    refine ⟨x.rank, x.rank_le, Format.magnitude_eq_iff.mp ?_⟩
    rw [hk, Int.floor_intCast, Nat.cast_natAbs, Int.cast_abs, ← hk, abs_value, magnitude]
  · have hlt : x.magnitude < F.hiddenBit := by
      rw [magnitude, Format.magnitude, div_lt_iff₀ F.unitsPerOne_cast_pos]
      exact_mod_cast F.units_lt_of_not_dvd hdvd
    rw [← abs_value, abs_lt] at hlt
    have hlower : -(F.hiddenBit : Int) ≤ ⌊x.value⌋ := Int.le_floor.mpr (by exact_mod_cast hlt.1.le)
    have hupper : ⌊x.value⌋ < F.hiddenBit := Int.floor_lt.mpr (by exact_mod_cast hlt.2)
    obtain ⟨k, hk, hunits⟩ := Format.exists_rank_of_le (F := F) (n := ⌊x.value⌋.natAbs) (by omega)
    exact ⟨k, hk.le, hunits⟩

/-- **The floor of a finite number is the exact floor of its value.** -/
theorem value_floor (hx : x.isInfinite = false) : x.floor.value = ⌊x.value⌋ := by
  unfold floor
  rw [if_neg (Bool.eq_false_iff.mp hx)]
  by_cases hzero : ⌊x.value⌋ = 0
  · rw [if_pos hzero, hzero, Int.cast_zero]
    exact value_eq_zero_iff.mpr rfl
  · rw [if_neg hzero]
    obtain ⟨k, hk, hunits⟩ := exists_rank_floor hx
    exact value_ofInt hk hunits

/-- **The integral numbers are those that equal their own floor.** -/
theorem isIntegral_iff_floor (x : Number F) : x.isIntegral ↔ x.sameValue x.floor := by
  by_cases hx : x.isInfinite
  · have hfloor : x.floor = x := if_pos hx
    rw [hfloor]
    exact iff_of_true (isIntegral_iff.mpr (Or.inl hx)) x.sameValue_refl
  · rw [Bool.not_eq_true] at hx
    rw [sameValue_iff_value, value_floor hx, isIntegral_iff]
    constructor
    · rintro (hinfinite | ⟨k, hk⟩)
      · exact absurd hinfinite (Bool.eq_false_iff.mp hx)
      · rw [hk, Int.floor_intCast]
    · exact fun h => Or.inr ⟨_, h⟩

/-! ## Texts -/

section Texts

open Json.Numeral (SpellsWhole Digits)

/-- The digits of an integral number are those of its exact value. -/
theorem magnitudeText_integral (hx : x.isInfinite = false) (h : x.isIntegral) :
    SpellsWhole x.magnitudeText ∧ (Nat.ofDigitChars 10 x.magnitudeText 0 : ℚ) = |x.value| := by
  rw [magnitudeText_of_isIntegral hx h]
  refine ⟨Json.Numeral.spellsWhole_digits _, ?_⟩
  rw [Decimal.ofDigitChars_digits, abs_value]
  exact (Format.magnitude_eq_iff.mpr (units_div_mul hx h).symm).symm

/-- A number that is not integral has a whole part without superfluous zeros, and decimals of which the
last one is not a zero. -/
theorem magnitudeText_not_integral (h : x.isIntegral = false) :
    ∃ whole fraction, x.magnitudeText = whole ++ '.' :: fraction ∧ SpellsWhole whole ∧
      Digits fraction ∧ '0' ∉ fraction.getLast? := by
  rw [magnitudeText_of_not_isIntegral h]
  have hmod := coefficient_shortest_mod .away (isZero_of_not_isIntegral h)
  have hneg := shortest_exponent_neg .away h
  generalize x.shortest .away = d at hmod hneg
  obtain ⟨c, e⟩ := d
  obtain ⟨n, rfl⟩ := Decimal.exists_negSucc hneg
  have hpos : 0 < Nat.pow 10 (n + 1) := Nat.pow_pos (by decide : 0 < 10)
  have hlength := Decimal.length_paddedDigits (Nat.mod_lt c hpos)
  refine ⟨_, _, rfl, Json.Numeral.spellsWhole_digits _, ⟨?_, ?_⟩, ?_⟩
  · exact List.ne_nil_of_length_eq_add_one hlength
  · exact fun _ hc => Decimal.isDigit_of_mem_paddedDigits hc
  · refine Decimal.zero_notMem_getLast?_paddedDigits ?_
    have hten : 10 ∣ Nat.pow 10 (n + 1) := Dvd.intro_left (10 ^ n) rfl
    rwa [Nat.mod_mod_of_dvd _ hten]

/-- **How numbers are written in trees.** A number is integral exactly if it equals its own floor, which
is to say that it is infinite or an integer. A finite integral number is written with all the digits of its
exact value, any other one with a whole part, a point and decimals, the last of which is not a zero. There
is a point in the text exactly if the number is not integral, a sign exactly if the number has the sign
bit, and never an exponent, a plus sign, a space or a parenthesis. -/
theorem text_layout (x : Number F) :
    (x.isIntegral ↔ x.sameValue x.floor) ∧
    (x.isInfinite = false → x.floor.value = ⌊x.value⌋) ∧
    (x.isIntegral ↔ x.isInfinite ∨ ∃ k : Int, x.value = k) ∧
    (x.isInfinite = false → x.isIntegral → ∃ whole, x.text = x.signText ++ whole ∧
      SpellsWhole whole ∧ (Nat.ofDigitChars 10 whole 0 : ℚ) = |x.value|) ∧
    (x.isIntegral = false → ∃ whole fraction, x.text = x.signText ++ (whole ++ '.' :: fraction) ∧
      SpellsWhole whole ∧ Digits fraction ∧ '0' ∉ fraction.getLast?) ∧
    ('.' ∈ x.text ↔ x.isIntegral = false) ∧
    ('-' ∈ x.text ↔ x.negative) ∧
    ∀ c ∈ x.text, c ∉ ['e', 'E', '+', ' ', '(', ')'] := by
  refine ⟨x.isIntegral_iff_floor, value_floor, isIntegral_iff, fun hx h => ?_, fun h => ?_, ?_,
    sign_mem_text, fun c hc hforbidden => ?_⟩
  · exact ⟨_, rfl, magnitudeText_integral hx h⟩
  · obtain ⟨whole, fraction, htext, hlayout⟩ := magnitudeText_not_integral h
    exact ⟨whole, fraction, congrArg (x.signText ++ ·) htext, hlayout⟩
  · rw [← point_mem_magnitudeText, text, List.mem_append]
    refine or_iff_right fun hpoint => ?_
    unfold signText at hpoint
    split at hpoint
    · exact absurd (List.mem_singleton.mp hpoint) (by decide)
    · cases hpoint
  · have hchar := isTextChar_of_mem_text hc
    have hnone : ['e', 'E', '+', ' ', '(', ')'].all fun c => !isTextChar c := rfl
    have hno := List.all_eq_true.mp hnone c hforbidden
    rw [hchar] at hno
    cases hno

example : (zero true : Number .binary64).text = ['-', '0'] := by decide +kernel

/-- The number nearest to ten to the power of 23 is written with the digits of its exact value. -/
example : (ofDecimal .binary64 false ⟨1, 23⟩).text = "99999999999999991611392".toList := by
  decide +kernel

end Texts

end Number
end ArithTree
