import ArithTree.Binary.Value

/-!
# Encodings and their fields

The encoding of a value has a sign bit, an exponent field and a fraction. Here the fields are read
off the bits themselves, not off ranks: an encoding is that of a NaN if its exponent field has all
bits set and its fraction has any bit set, whatever the sign and the other bits of the fraction are.

* `ofBits_eq_nan_iff`: these encodings, and no others, are read as NaN.
* `toBits_of_ofBits`: every other encoding is that of the number it is read as, bit for bit.
-/

namespace ArithTree

variable {F : Format}

namespace Format

/-- The exponent field of an encoding. -/
def exponentField (F : Format) (bits : BitVec F.width) : BitVec F.exponentBits :=
  bits.extractLsb' F.fractionBits F.exponentBits

/-- The fraction of an encoding. -/
def fractionField (F : Format) (bits : BitVec F.width) : BitVec F.fractionBits :=
  bits.extractLsb' 0 F.fractionBits

/-- The encodings of NaNs: of either sign, quiet or signalling, with any payload. -/
def IsNaN (F : Format) (bits : BitVec F.width) : Prop :=
  F.exponentField bits = BitVec.allOnes F.exponentBits ∧ F.fractionField bits ≠ 0

instance (F : Format) (bits : BitVec F.width) : Decidable (F.IsNaN bits) :=
  inferInstanceAs (Decidable (_ ∧ _))

theorem magnitude_eq (F : Format) :
    Nat.pow 2 F.magnitudeBits = F.hiddenBit * Nat.pow 2 F.exponentBits := by
  cases F <;> rfl

theorem width_eq (F : Format) :
    Nat.pow 2 F.width = Nat.pow 2 F.magnitudeBits + Nat.pow 2 F.magnitudeBits := by
  cases F <;> rfl

theorem exponentField_toNat (F : Format) (bits : BitVec F.width) :
    (F.exponentField bits).toNat = bits.toNat % Nat.pow 2 F.magnitudeBits / F.hiddenBit := by
  unfold exponentField
  rw [BitVec.extractLsb'_toNat, Nat.shiftRight_eq_div_pow, magnitude_eq,
    Nat.mod_mul_right_div_self]
  rfl

theorem fractionField_toNat (F : Format) (bits : BitVec F.width) :
    (F.fractionField bits).toNat = bits.toNat % Nat.pow 2 F.magnitudeBits % F.hiddenBit := by
  unfold fractionField
  rw [BitVec.extractLsb'_toNat, Nat.shiftRight_zero, magnitude_eq,
    Nat.mod_mul_right_mod]
  rfl

/-- All bits of the exponent field are set. -/
theorem exponentField_eq_allOnes_iff (F : Format) (bits : BitVec F.width) :
    F.exponentField bits = BitVec.allOnes F.exponentBits ↔
      bits.toNat % Nat.pow 2 F.magnitudeBits / F.hiddenBit = Nat.pow 2 F.exponentBits - 1 := by
  rw [← BitVec.toNat_inj, exponentField_toNat, BitVec.toNat_allOnes]
  rfl

/-- The NaNs are the encodings above that of infinity. -/
theorem isNaN_iff (F : Format) (bits : BitVec F.width) :
    F.IsNaN bits ↔ F.infinityRank < bits.toNat % Nat.pow 2 F.magnitudeBits := by
  have hlt : bits.toNat % Nat.pow 2 F.magnitudeBits < F.hiddenBit * Nat.pow 2 F.exponentBits := by
    rw [← magnitude_eq]
    exact Nat.mod_lt _ (Nat.two_pow_pos _)
  have hfraction : F.fractionField bits ≠ 0 ↔
      bits.toNat % Nat.pow 2 F.magnitudeBits % F.hiddenBit ≠ 0 := by
    rw [ne_eq, ← BitVec.toNat_inj, fractionField_toNat]
    rfl
  unfold IsNaN infinityRank
  rw [exponentField_eq_allOnes_iff, hfraction]
  generalize bits.toNat % Nat.pow 2 F.magnitudeBits = rank at hlt
  have hdiv : rank / F.hiddenBit < Nat.pow 2 F.exponentBits := Nat.div_lt_of_lt_mul hlt
  have hrank : F.hiddenBit * (rank / F.hiddenBit) + rank % F.hiddenBit = rank :=
    Nat.div_add_mod rank F.hiddenBit
  constructor
  · rintro ⟨hq, hr⟩
    rw [hq, Nat.mul_comm] at hrank
    omega
  · intro h
    have hq : Nat.pow 2 F.exponentBits - 1 ≤ rank / F.hiddenBit :=
      (Nat.le_div_iff_mul_le F.hiddenBit_pos).mpr (Nat.le_of_lt h)
    have hq' : rank / F.hiddenBit = Nat.pow 2 F.exponentBits - 1 := by omega
    refine ⟨hq', ?_⟩
    rw [hq', Nat.mul_comm] at hrank
    omega

end Format

/-! ## Encodings and values -/

namespace Value

/-- **Exactly the NaN encodings are read as NaN.** -/
theorem ofBits_eq_nan_iff (bits : BitVec F.width) : ofBits bits = .nan ↔ F.IsNaN bits := by
  rw [F.isNaN_iff]
  by_cases h : bits.toNat % Nat.pow 2 F.magnitudeBits ≤ F.infinityRank
  · have hvalue : ofBits bits = .number ⟨bits.msb, _, h⟩ := dif_pos h
    rw [hvalue]
    exact iff_of_false nofun (Nat.not_lt.mpr h)
  · have hvalue : ofBits bits = .nan := dif_neg h
    rw [hvalue]
    exact iff_of_true rfl (Nat.not_le.mp h)

/-- A number has the sign bit of its encoding, and the bits below it as the rank. -/
theorem of_ofBits_eq_number {bits : BitVec F.width} {x : Number F} (h : ofBits bits = .number x) :
    x.negative = bits.msb ∧ x.rank = bits.toNat % Nat.pow 2 F.magnitudeBits := by
  simp only [ofBits] at h
  split at h
  · cases h
    exact ⟨rfl, rfl⟩
  · cases h

/-- What is read from an encoding has that encoding. -/
theorem toBits_of_ofBits {bits : BitVec F.width} {x : Number F} (h : ofBits bits = .number x) :
    x.toBits = bits := by
  simp only [ofBits] at h
  split at h
  · cases h
    have hlt : bits.toNat < Nat.pow 2 F.magnitudeBits + Nat.pow 2 F.magnitudeBits := by
      rw [← F.width_eq]
      exact bits.isLt
    have hsum : (if bits.msb then Nat.pow 2 F.magnitudeBits else 0) +
        bits.toNat % Nat.pow 2 F.magnitudeBits = bits.toNat := by
      have hmsb : bits.msb = decide (Nat.pow 2 F.magnitudeBits ≤ bits.toNat) :=
        BitVec.msb_eq_decide bits
      rw [hmsb]
      by_cases hle : Nat.pow 2 F.magnitudeBits ≤ bits.toNat
      · have hmod : bits.toNat % Nat.pow 2 F.magnitudeBits =
            bits.toNat - Nat.pow 2 F.magnitudeBits := by
          rw [Nat.mod_eq_sub_mod hle]
          exact Nat.mod_eq_of_lt (by omega)
        simp only [hle, decide_true, if_true]
        omega
      · simp only [hle, decide_false, Bool.false_eq_true, if_false, Nat.zero_add]
        exact Nat.mod_eq_of_lt (Nat.not_le.mp hle)
    unfold Number.toBits
    rw [hsum, BitVec.ofNat_toNat, BitVec.setWidth_eq]
  · cases h

end Value

namespace Number

/-- Numbers are equal exactly if their encodings are, so that equal trees have the same bits at their
leaves. -/
theorem toBits_injective {x y : Number F} (h : x.toBits = y.toBits) : x = y := by
  have hx := Value.ofBits_toBits x
  rw [h, Value.ofBits_toBits y] at hx
  cases hx
  rfl

/-- No number is encoded as a NaN. -/
theorem not_isNaN_toBits (x : Number F) : ¬ F.IsNaN x.toBits := by
  rw [← Value.ofBits_eq_nan_iff, Value.ofBits_toBits]
  exact nofun

end Number

/-- An encoding is that of a NaN, or of a number. -/
theorem Value.ofBits_cases (bits : BitVec F.width) :
    F.IsNaN bits ∧ ofBits bits = .nan ∨
      ¬ F.IsNaN bits ∧ ∃ x : Number F, ofBits bits = .number x ∧ x.toBits = bits := by
  cases h : ofBits bits with
  | nan => exact Or.inl ⟨(ofBits_eq_nan_iff bits).mp h, rfl⟩
  | number x =>
    have hbits := toBits_of_ofBits h
    refine Or.inr ⟨?_, x, rfl, hbits⟩
    rw [← hbits]
    exact x.not_isNaN_toBits

end ArithTree
