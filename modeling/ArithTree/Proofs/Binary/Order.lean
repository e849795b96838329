import Mathlib.Order.WithBot
import Mathlib.Order.Compare
import ArithTree.Proofs.Binary.Bits
import ArithTree.Proofs.Binary.Layout

/-!
# The order of numbers

Numbers are compared by their ranks, turned around for negative ones. Here the order is that of the exact
values, which are read off the fields of the encodings, on a line of the rationals with an infinity at
either end.

* `Format.exactValue`: the point of the line that an encoding stands for.
* `Value.compare?`: the comparison of values, which has no answer if one of them is NaN.
* `Number.value_lt_value_iff`: signed ranks are ordered like values.
* `Number.place_lt_place_iff`: so numbers are ordered like their points of the line.
* `Number.compare_by_value`: the order is total up to the two zeros, and it is that of the exact values.
-/

namespace ArithTree

/-- The rationals and two infinities. -/
abbrev Line := WithBot (WithTop ℚ)

namespace Format

variable {F : Format}

/-! ## Values by fields -/

/-- The exponent field of the value one. -/
def bias (F : Format) : Nat := Nat.pow 2 (F.exponentBits - 1) - 1

/-- The magnitude with these fields. A zero exponent field marks the subnormals, which have nothing in
front of the binary point and the exponent of the first normal magnitudes. -/
def fieldMagnitude (F : Format) (exponent fraction : Nat) : ℚ :=
  if exponent = 0 then fraction / F.hiddenBit * 2 ^ (1 - F.bias : ℤ)
  else (1 + fraction / F.hiddenBit) * 2 ^ (exponent - F.bias : ℤ)

/-- The point of the line that an encoding stands for, if it is not that of a NaN. -/
def exactValue (F : Format) (bits : BitVec F.width) : Line :=
  if F.exponentField bits = BitVec.allOnes F.exponentBits then
    if bits.msb then ⊥ else ⊤
  else ((withSign bits.msb
    (F.fieldMagnitude (F.exponentField bits).toNat (F.fractionField bits).toNat) : ℚ) : WithTop ℚ)

theorem unitsPerOne_eq_bias (F : Format) : 2 * F.unitsPerOne = Nat.pow 2 F.bias * F.hiddenBit := by
  cases F <;> decide +kernel

/-- A significand, scaled in units and scaled by the biased exponent. -/
theorem scaled_significand (F : Format) (m j : Nat) :
    ((m * Nat.pow 2 j : Nat) : ℚ) / F.unitsPerOne = m / F.hiddenBit * 2 ^ ((j + 1 : Nat) - F.bias : ℤ) := by
  have hunits : (2 : ℚ) * F.unitsPerOne = 2 ^ F.bias * F.hiddenBit := by
    exact_mod_cast F.unitsPerOne_eq_bias
  have hbit : (F.hiddenBit : ℚ) ≠ 0 := by exact_mod_cast F.hiddenBit_pos.ne'
  have hone : (F.unitsPerOne : ℚ) ≠ 0 := F.unitsPerOne_cast_pos.ne'
  rw [zpow_sub₀ (by norm_num), zpow_natCast, zpow_natCast, div_mul_div_comm, div_eq_div_iff hone
    (mul_ne_zero hbit (by positivity))]
  show ((m * 2 ^ j : Nat) : ℚ) * _ = _
  push_cast
  rw [mul_comm (F.hiddenBit : ℚ), ← hunits]
  ring

/-- **The magnitude of a rank has the rank as its two fields**, one behind the other. -/
theorem magnitude_eq_fieldMagnitude (F : Format) (k : Nat) :
    F.magnitude k = F.fieldMagnitude (k / F.hiddenBit) (k % F.hiddenBit) := by
  have hbit : (F.hiddenBit : ℚ) ≠ 0 := by exact_mod_cast F.hiddenBit_pos.ne'
  unfold magnitude fieldMagnitude
  by_cases hzero : k / F.hiddenBit = 0
  · have hlt : k < F.hiddenBit := (Nat.div_eq_zero_iff_lt F.hiddenBit_pos).mp hzero
    rw [if_pos hzero, F.units_subnormal hlt, Nat.mod_eq_of_lt hlt]
    simpa using F.scaled_significand k 0
  · have hle : F.hiddenBit ≤ k := Nat.not_lt.mp fun hlt => hzero (Nat.div_eq_of_lt hlt)
    rw [if_neg hzero, F.units_normal hle, scaled_significand,
      Nat.sub_add_cancel (Nat.one_le_iff_ne_zero.mpr hzero), Nat.cast_add, add_div, div_self hbit]

/-! ## Values by signed ranks -/

/-- The value of a signed rank. -/
def signedMagnitude (F : Format) : Int → ℚ
  | .ofNat k => F.magnitude k
  | .negSucc k => -F.magnitude (k + 1)

theorem signedMagnitude_lt_iff {i j : Int} :
    F.signedMagnitude i < F.signedMagnitude j ↔ i < j := by
  refine (strictMono_int_of_lt_succ fun i => ?_).lt_iff_lt
  cases i with
  | ofNat k => exact F.magnitude_strictMono (Nat.lt_succ_self k)
  | negSucc k =>
    cases k with
    | zero =>
      have hpos : F.magnitude 0 < F.magnitude 1 := F.magnitude_strictMono Nat.one_pos
      show -F.magnitude 1 < F.magnitude 0
      rw [F.magnitude_zero] at hpos ⊢
      exact neg_neg_of_pos hpos
    | succ k => exact neg_lt_neg (F.magnitude_strictMono (Nat.lt_succ_self (k + 1)))

end Format

/-! ## The comparison of values -/

/-- The comparison of values. A NaN has no place among the others, not even next to itself. -/
def Value.compare? : Value F → Value F → Option Ordering
  | .number x, .number y => some (x.compare y)
  | _, _ => none

theorem Value.compare?_eq_none_iff {v w : Value F} :
    v.compare? w = none ↔ v = .nan ∨ w = .nan := by
  cases v with
  | nan => exact iff_of_true rfl (Or.inl rfl)
  | number x =>
    cases w with
    | nan => exact iff_of_true rfl (Or.inr rfl)
    | number y => exact iff_of_false nofun (fun h => h.elim nofun nofun)

namespace Number

variable {x y z : Number F}

/-! ## Numbers on the line -/

theorem signedMagnitude_signedRank (x : Number F) : F.signedMagnitude x.signedRank = x.value := by
  obtain ⟨negative, rank, hrank⟩ := x
  cases negative with
  | false => rfl
  | true =>
    cases rank with
    | zero =>
      show F.magnitude 0 = -F.magnitude 0
      rw [F.magnitude_zero, neg_zero]
    | succ k => rfl

/-- **Signed ranks are ordered like values**, if infinity stands for the power of two that would be
next. -/
theorem value_lt_value_iff : x.value < y.value ↔ x.signedRank < y.signedRank := by
  rw [← signedMagnitude_signedRank, ← signedMagnitude_signedRank]
  exact Format.signedMagnitude_lt_iff

/-- The place of a number on the line. -/
def place (x : Number F) : Line :=
  if x.isInfinite then if x.negative then ⊥ else ⊤
  else ((x.value : ℚ) : WithTop ℚ)

/-- The place of a number is told by the fields of its encoding. -/
theorem place_eq_exactValue {bits : BitVec F.width} (h : Value.ofBits bits = .number x) :
    x.place = F.exactValue bits := by
  obtain ⟨hsign, hrank⟩ := Value.of_ofBits_eq_number h
  have hinfinite : F.exponentField bits = BitVec.allOnes F.exponentBits ↔ x.isInfinite := by
    rw [F.exponentField_eq_allOnes_iff, isInfinite_iff, ← hrank]
    constructor
    · intro hexponent
      refine Nat.le_antisymm x.rank_le ?_
      rw [Format.infinityRank, ← hexponent]
      exact Nat.div_mul_le_self ..
    · intro hrank
      rw [hrank]
      exact Nat.mul_div_cancel _ F.hiddenBit_pos
  unfold place Format.exactValue
  simp only [hinfinite]
  rw [F.exponentField_toNat, F.fractionField_toNat, ← hrank, ← hsign,
    ← F.magnitude_eq_fieldMagnitude]
  rfl

/-- Infinities have the outermost signed ranks and stand at the ends of the line; all other numbers are
where their values are. -/
theorem place_cases (x : Number F) :
    (x.signedRank = -F.infinityRank ∧ x.place = ⊥) ∨ (x.signedRank = F.infinityRank ∧ x.place = ⊤) ∨
      (-(F.infinityRank : Int) < x.signedRank ∧ x.signedRank < F.infinityRank ∧
        x.place = ((x.value : ℚ) : WithTop ℚ)) := by
  unfold place signedRank
  cases hinfinite : x.isInfinite with
  | true =>
    rw [isInfinite_iff.mp hinfinite]
    cases x.negative with
    | true => exact Or.inl ⟨rfl, rfl⟩
    | false => exact Or.inr (Or.inl ⟨rfl, rfl⟩)
  | false =>
    have hrank := isInfinite_eq_false_iff.mp hinfinite
    refine Or.inr (Or.inr ⟨?_, ?_, rfl⟩)
    · split <;> omega
    · split <;> omega

/-- **Numbers are ordered like their places.** -/
theorem place_lt_place_iff : x.place < y.place ↔ x.signedRank < y.signedRank := by
  have hpos := F.infinityRank_pos
  obtain ⟨hx, hplace⟩ | ⟨hx, hplace⟩ | ⟨hx, hx', hplace⟩ := x.place_cases
  · rw [hplace]
    obtain ⟨hy, hplace'⟩ | ⟨hy, hplace'⟩ | ⟨hy, hy', hplace'⟩ := y.place_cases
    · exact iff_of_false (hplace' ▸ lt_irrefl _) (by omega)
    · exact iff_of_true (hplace' ▸ bot_lt_top) (by omega)
    · exact iff_of_true (hplace' ▸ WithBot.bot_lt_coe _) (by omega)
  · refine iff_of_false (hplace ▸ not_top_lt) ?_
    obtain ⟨hy, -⟩ | ⟨hy, -⟩ | ⟨-, hy, -⟩ := y.place_cases <;> omega
  · rw [hplace]
    obtain ⟨hy, hplace'⟩ | ⟨hy, hplace'⟩ | ⟨hy, hy', hplace'⟩ := y.place_cases
    · exact iff_of_false (hplace' ▸ not_lt_bot) (by omega)
    · exact iff_of_true (hplace' ▸ WithBot.coe_lt_coe.mpr (WithTop.coe_lt_top _)) (by omega)
    · rw [hplace', WithBot.coe_lt_coe, WithTop.coe_lt_coe, value_lt_value_iff]

theorem place_eq_place_iff : x.place = y.place ↔ x.signedRank = y.signedRank := by
  rw [eq_iff_le_not_lt, ← not_lt, place_lt_place_iff, place_lt_place_iff]
  omega

/-! ## A total order -/

/-- The opposites of two numbers are in the opposite order. -/
theorem compare_neg_neg (x y : Number F) : x.neg.compare y.neg = y.compare x := by
  have hanti : StrictAnti (fun i : Int => -i) := fun _ _ => Int.neg_lt_neg
  unfold compare
  rw [signedRank_neg, signedRank_neg, ← cmp_eq_compare, ← cmp_eq_compare]
  exact hanti.cmp_map_eq ..

/-- Of two numbers one is below the other, or they have the same value, and not two of this. -/
theorem below_or_same_or_above (x y : Number F) :
    (x.compare y = .lt ∧ ¬ x.sameValue y ∧ y.compare x ≠ .lt) ∨
    (x.compare y ≠ .lt ∧ x.sameValue y ∧ y.compare x ≠ .lt) ∨
    (x.compare y ≠ .lt ∧ ¬ x.sameValue y ∧ y.compare x = .lt) := by
  simp only [ne_eq, compare_eq_lt_iff, sameValue_iff]
  omega

theorem compare_eq_lt_trans (h : x.compare y = .lt) (h' : y.compare z = .lt) : x.compare z = .lt := by
  rw [compare_eq_lt_iff] at h h' ⊢
  exact h.trans h'

theorem sameValue_equivalence : Equivalence fun x y : Number F => x.sameValue y where
  refl := sameValue_refl
  symm := sameValue_symm
  trans := sameValue_trans

/-- Finite numbers are between the infinities. -/
theorem between_infinities (hx : x.isInfinite = false) :
    (infinity true).compare x = .lt ∧ x.compare (infinity false) = .lt := by
  have hrank := isInfinite_eq_false_iff.mp hx
  rw [compare_eq_lt_iff, compare_eq_lt_iff]
  simp only [signedRank, infinity, if_true, Bool.false_eq_true, if_false]
  constructor
  · split <;> omega
  · split <;> omega

/-- **Numbers are totally ordered by their exact values.** Two values can be compared unless one of them is
encoded as a NaN. All other encodings are those of numbers, and these are in the order of the exact
values that the fields of the encodings stand for. So of two numbers one is below the other or they have
the same value, and this is an equivalence; the finite numbers are between the infinities, and the two
zeros have the same value. The opposites of two numbers are in the opposite order. -/
theorem compare_by_value (F : Format) :
    (∀ p q : BitVec F.width,
      (Value.ofBits p).compare? (Value.ofBits q) = none ↔ F.IsNaN p ∨ F.IsNaN q) ∧
    (∀ p q : BitVec F.width, ¬ F.IsNaN p → ¬ F.IsNaN q → ∃ x y : Number F,
      Value.ofBits p = .number x ∧ Value.ofBits q = .number y ∧
      (Value.ofBits p).compare? (Value.ofBits q) = some (x.compare y) ∧
      (x.compare y = .lt ↔ F.exactValue p < F.exactValue q) ∧
      (x.sameValue y ↔ F.exactValue p = F.exactValue q)) ∧
    (∀ x y : Number F,
      (x.compare y = .lt ∧ ¬ x.sameValue y ∧ y.compare x ≠ .lt) ∨
      (x.compare y ≠ .lt ∧ x.sameValue y ∧ y.compare x ≠ .lt) ∨
      (x.compare y ≠ .lt ∧ ¬ x.sameValue y ∧ y.compare x = .lt)) ∧
    (∀ x y : Number F, x.compare y = .eq ↔ x.sameValue y) ∧
    Equivalence (fun x y : Number F => x.sameValue y) ∧
    (∀ x y z : Number F, x.compare y = .lt → y.compare z = .lt → x.compare z = .lt) ∧
    (∀ x : Number F, x.isInfinite = false →
      (infinity true).compare x = .lt ∧ x.compare (infinity false) = .lt) ∧
    (zero true : Number F).sameValue (zero false) ∧
    ∀ x y : Number F, x.neg.compare y.neg = y.compare x := by
  refine ⟨fun p q => ?_, fun p q hp hq => ?_, below_or_same_or_above, fun _ _ => compare_eq_eq_iff,
    sameValue_equivalence, fun _ _ _ => compare_eq_lt_trans, fun _ => between_infinities, rfl,
    compare_neg_neg⟩
  · rw [Value.compare?_eq_none_iff, Value.ofBits_eq_nan_iff, Value.ofBits_eq_nan_iff]
  · obtain ⟨-, x, hx, -⟩ := (Value.ofBits_cases p).resolve_left fun h => hp h.1
    obtain ⟨-, y, hy, -⟩ := (Value.ofBits_cases q).resolve_left fun h => hq h.1
    refine ⟨x, y, hx, hy, ?_, ?_, ?_⟩
    · rw [hx, hy, Value.compare?]
    · rw [compare_eq_lt_iff, ← place_lt_place_iff, place_eq_exactValue hx, place_eq_exactValue hy]
    · rw [sameValue_iff, ← place_eq_place_iff, place_eq_exactValue hx, place_eq_exactValue hy]

/-- The least subnormal number, turned negative, is below minus zero, which has the same value as zero. -/
theorem compare_by_value_subnormal :
    let p : BitVec (Format.width .binary32) := .ofNat _ 0x80000001
    let q : BitVec (Format.width .binary32) := .ofNat _ 0x80000000
    ¬ Format.IsNaN .binary32 p ∧ ¬ Format.IsNaN .binary32 q ∧
      Format.exactValue .binary32 p < Format.exactValue .binary32 q ∧
      (infinity true : Number .binary32).compare (zero true) = .lt := by
  intro p q
  have hp : ¬ Format.IsNaN .binary32 p := by decide
  have hq : ¬ Format.IsNaN .binary32 q := by decide
  obtain ⟨-, hvalues, -, -, -, -, hbetween, -⟩ := compare_by_value .binary32
  obtain ⟨x, y, hx, hy, -, hlt, -⟩ := hvalues p q hp hq
  have hvalue : Value.ofBits p = .number ⟨true, 1, by decide⟩ := by decide
  have hzero : Value.ofBits q = .number (zero true) := by decide
  obtain rfl := Value.number.inj (hx.symm.trans hvalue)
  obtain rfl := Value.number.inj (hy.symm.trans hzero)
  exact ⟨hp, hq, hlt.mp (by decide), (hbetween (zero true) (by decide)).1⟩

end Number

end ArithTree
