import ArithTree.Proofs.Binary.Denotation
import ArithTree.Proofs.Json.Range

/-!
# Numerals of the same value

The same value can be spelled in many ways, and the way decides how it is read: as an integer that is kept,
as a decimal, with or without its last digits, or by way of `binary64`. Nearly always the numeral is read as
the number nearest to its value, so that the spelling does not matter. Here are all numerals for which it
does.

* `Numeral.Misread`: these numerals. Their values are, or become by way of `binary64`, a point halfway
  between two numbers.
* `Numeral.Spells.roundsTo_round_iff`: all others are read as the number nearest to their values.
* `Tree.ofJson_spelling`: two numerals of the same value are read alike exactly if both are among these or
  neither is.
* `Tree.ofJson_depends_on_spelling`: a value with two spellings that are not read alike.
-/

namespace ArithTree

variable {F : Format}

namespace Json.Numeral

variable {text text' : List Char} {n n' : Numeral} {x : Number F} {k : Nat}

/-! ## The nearest number -/

theorem value_nonneg (n : Numeral) : 0 ≤ n.value := n.magnitude.value_nonneg

theorem roundsTo_ofDecimal (F : Format) (n : Numeral) :
    n.RoundsTo (Number.ofDecimal F n.negative n.magnitude) := by
  have hnearest := Number.isNearest_ofDecimal F n.negative n.magnitude
  rw [Number.negative_ofDecimal] at hnearest
  exact ⟨(Number.negative_ofDecimal ..).symm, hnearest⟩

theorem RoundsTo.isNearest (h : n.RoundsTo x) : x.IsNearest (withSign x.negative n.value) :=
  h.negative_eq ▸ h.nearest

/-- The nearest number is a matter of sign and value. -/
theorem roundsTo_congr (hsign : n.negative = n'.negative) (hvalue : n.value = n'.value) :
    n.RoundsTo x ↔ n'.RoundsTo x := by
  constructor
  · rintro ⟨hnegative, hnearest⟩
    exact ⟨hsign ▸ hnegative, hsign ▸ hvalue ▸ hnearest⟩
  · rintro ⟨hnegative, hnearest⟩
    exact ⟨hsign ▸ hnegative, hsign ▸ hvalue ▸ hnearest⟩

/-- Of the numbers with its sign a numeral is rounded to the one whose rank is told by the halfway points. -/
theorem roundsTo_iff_rank_le (hsign : n.negative = x.negative) :
    n.RoundsTo x ↔ ∀ k < F.infinityRank,
      x.rank ≤ k ↔ n.value < F.halfway k ∨ n.value = F.halfway k ∧ k % 2 = 0 := by
  rw [← Number.isNearest_iff_rank_le n.value_nonneg, ← hsign]
  exact ⟨RoundsTo.nearest, fun h => ⟨hsign, h⟩⟩

/-! ## Numerals that are not read as the nearest number -/

/-- The numerals that are not read as the number nearest to their values. -/
inductive Misread (F : Format) (n : Numeral) : Prop
  /-- The value is a halfway point that is rounded down, and has more digits than are read, so that
  something is taken to be behind it. -/
  | long {k : Nat} (hk : k < F.infinityRank) (hvalue : n.value = F.halfway k) (heven : k % 2 = 0)
      (hlong : 10 ^ digitsRead F ≤ n.coefficient)
  /-- The value is an integer of 64 bits without room for the sign, written as such, and on its way by
  `binary64` it crosses a halfway point. -/
  | detour {k : Nat} {y : Number .binary64} (hk : k < F.infinityRank) (hplain : n.plain)
      (hnegative : n.negative) (hlower : 2 ^ 63 < n.coefficient) (hupper : n.coefficient < 2 ^ 64)
      (hy : n.RoundsTo y) (hcrosses : F.Crosses n.value y.magnitude k)

/-- A numeral that has no more digits than are read, and does not pass through `binary64`, is not misread. -/
theorem not_misread (hshort : n.coefficient < 10 ^ digitsRead F)
    (hdirect : ¬ (n.plain ∧ n.negative ∧ 2 ^ 63 < n.coefficient ∧ n.coefficient < 2 ^ 64)) :
    ¬ n.Misread F := by
  intro h
  cases h with
  | long _ _ _ hlong => exact absurd hlong (Nat.not_le.mpr hshort)
  | detour _ hplain hnegative hlower hupper => exact hdirect ⟨hplain, hnegative, hlower, hupper⟩

/-! ## The ways to read a numeral -/

/-- A numeral with too many digits is read without the last ones. -/
theorem round_of_long (hlong : 10 ^ digitsRead F ≤ n.coefficient) :
    n.round F = .ofDecimal F n.negative (n.magnitude.abridge (digitsRead F)) := by
  have hbits : 2 ^ 64 < n.coefficient := by
    refine Nat.lt_of_lt_of_le ?_ hlong
    exact F.two_pow_lt_overflow.trans (overflow_lt_digitsRead F)
  have hnone : n.integer? = none := by
    cases hinteger : n.integer? with
    | none => rfl
    | some i =>
      have hle := (natAbs_of_integer? hinteger).2.2.1
      omega
  unfold round
  rw [hnone]
  refine if_neg ?_
  rintro ⟨-, -, hlt⟩
  exact absurd hlt (Nat.not_lt.mpr hbits.le)

theorem integer?_of_negative (hplain : n.plain) (hnegative : n.negative) :
    n.integer? = if 0 < n.coefficient ∧ n.coefficient ≤ Nat.pow 2 63 then
      some (-(n.coefficient : Int)) else none := by
  simp [integer?, hplain, hnegative]

/-- A negative integer of 64 bits that is not kept is read by way of `binary64`. -/
theorem round_of_detour (hplain : n.plain) (hnegative : n.negative) (hlower : 2 ^ 63 < n.coefficient)
    (hupper : n.coefficient < 2 ^ 64) :
    n.round F = (Number.ofDecimal .binary64 n.negative n.magnitude).convert F := by
  have hnone : n.integer? = none := by
    rw [integer?_of_negative hplain hnegative]
    exact if_neg fun h => absurd h.2 (Nat.not_le.mpr hlower)
  unfold round
  rw [hnone, hnegative]
  exact if_pos ⟨hplain, rfl, hupper⟩

/-- All other numerals are read as the numbers nearest to their values. -/
theorem Spells.roundsTo_round (hn : n.Spells text) (hshort : n.coefficient < 10 ^ digitsRead F)
    (hdirect : ¬ (n.plain ∧ n.negative ∧ 2 ^ 63 < n.coefficient ∧ n.coefficient < 2 ^ 64)) :
    n.RoundsTo (n.round F) := by
  unfold round
  split
  · rename_i i hinteger
    obtain ⟨hplain, habs, -, hsign⟩ := natAbs_of_integer? hinteger
    have hnegative : n.negative = decide (i < 0) := by
      rw [Bool.eq_iff_iff, decide_eq_true_iff]
      exact hsign.symm
    have hvalue : withSign n.negative n.value = i := by
      rw [hnegative, hn.value_of_plain hplain, ← habs, Nat.cast_natAbs, Int.cast_abs,
        withSign_abs_intCast]
    refine ⟨hnegative, ?_⟩
    rw [hvalue]
    exact Number.isNearest_ofInt F i
  · rename_i hnone
    split
    · -- Only minus zero is left.
      rename_i hbits
      obtain ⟨hplain, hnegative, hupper⟩ := hbits
      have hzero : n.coefficient = 0 := by
        rw [integer?_of_negative hplain hnegative, ite_eq_right_iff] at hnone
        by_contra hne
        have hkept : ¬ (0 < n.coefficient ∧ n.coefficient ≤ 2 ^ 63) := fun h => nomatch hnone h
        exact hdirect ⟨hplain, hnegative, by omega, hupper⟩
      have hdecimal : Number.ofDecimal .binary64 true n.magnitude = .zero true := if_pos hzero
      have hconvert := Number.convertsTo_convert F (Number.zero true : Number .binary64)
      have hvalue : withSign n.negative n.value = (Number.zero true : Number .binary64).value := by
        rw [Number.value_eq_zero_iff.mpr rfl, value, Decimal.value_eq_zero_iff.mpr hzero]
        simp [withSign]
      rw [hdecimal]
      refine ⟨hnegative.trans hconvert.negative_eq.symm, ?_⟩
      rw [hvalue]
      exact hconvert.nearest (by decide)
    · rw [Decimal.abridge_of_lt hshort]
      exact roundsTo_ofDecimal F n

/-! ## Which numerals are misread -/

/-- A numeral with too many digits is rounded up at its halfway point. -/
theorem roundsTo_round_of_long (hlong : 10 ^ digitsRead F ≤ n.coefficient) :
    n.RoundsTo (n.round F) ↔ ¬ n.Misread F := by
  have hsign : n.negative = (n.round F).negative := by
    rw [round_of_long hlong, Number.negative_ofDecimal]
  have hrank {k : Nat} (hk : k < F.infinityRank) : (n.round F).rank ≤ k ↔ n.value < F.halfway k := by
    rw [round_of_long hlong]
    exact Number.rank_ofDecimal_abridge_le_iff hlong hk
  rw [roundsTo_iff_rank_le hsign]
  constructor
  · intro h hmisread
    cases hmisread with
    | long hk hvalue heven =>
      exact (((hrank hk).mp ((h _ hk).mpr (Or.inr ⟨hvalue, heven⟩))).ne hvalue).elim
    | detour _ _ _ _ hupper =>
      have hbits := F.two_pow_lt_overflow.trans (overflow_lt_digitsRead F)
      omega
  · intro hmisread k hk
    rw [hrank hk]
    exact (or_iff_left fun h => hmisread (.long hk h.1 h.2 hlong)).symm

/-- A numeral that is read by way of `binary64` is rounded to the side that it comes to there. -/
theorem roundsTo_round_of_detour (hn : n.Spells text) (hplain : n.plain) (hnegative : n.negative)
    (hlower : 2 ^ 63 < n.coefficient) (hupper : n.coefficient < 2 ^ 64) :
    n.RoundsTo (n.round F) ↔ ¬ n.Misread F := by
  have hy := roundsTo_ofDecimal .binary64 n
  have hround := round_of_detour (F := F) hplain hnegative hlower hupper
  have hfinite : (Number.ofDecimal .binary64 n.negative n.magnitude).isInfinite = false := by
    rw [← Bool.not_eq_true, (Number.isNearest_ofDecimal ..).isInfinite_iff, not_le]
    show n.value < _
    rw [hn.value_of_plain hplain]
    exact_mod_cast hupper.trans (Format.two_pow_lt_overflow .binary64)
  generalize Number.ofDecimal .binary64 n.negative n.magnitude = y at hy hround hfinite
  have hmisread : n.Misread F ↔ ∃ k < F.infinityRank, F.Crosses n.value y.magnitude k := by
    constructor
    · intro h
      cases h with
      | long _ _ _ hlong =>
        have hbits := F.two_pow_lt_overflow.trans (overflow_lt_digitsRead F)
        omega
      | detour hk _ _ _ _ hy' hcrosses => exact ⟨_, hk, hy.iff_eq.mp hy' ▸ hcrosses⟩
    · rintro ⟨k, hk, hcrosses⟩
      exact .detour hk hplain hnegative hlower hupper hy hcrosses
  have hsign : n.negative = (y.convert F).negative :=
    hy.negative_eq.trans (Number.convertsTo_convert F y).negative_eq.symm
  rw [hround, hmisread,
    ← Number.isNearest_convert_iff hy.isNearest n.value_nonneg hfinite F.width_le_binary64,
    ← hy.negative_eq]
  exact ⟨RoundsTo.nearest, fun h => ⟨hsign, h⟩⟩

/-- **All numerals but these are read as the numbers nearest to their values.** -/
theorem Spells.roundsTo_round_iff (hn : n.Spells text) (F : Format) :
    n.RoundsTo (n.round F) ↔ ¬ n.Misread F := by
  by_cases hlong : 10 ^ digitsRead F ≤ n.coefficient
  · exact roundsTo_round_of_long hlong
  · by_cases hdetour : n.plain ∧ n.negative ∧ 2 ^ 63 < n.coefficient ∧ n.coefficient < 2 ^ 64
    · obtain ⟨hplain, hnegative, hlower, hupper⟩ := hdetour
      exact roundsTo_round_of_detour hn hplain hnegative hlower hupper
    · have hshort := Nat.not_le.mp hlong
      exact iff_of_true (hn.roundsTo_round hshort hdetour) (not_misread hshort hdetour)

/-! ## Numerals of the same value -/

/-- A halfway point is not crossed from itself. -/
theorem not_crosses_of_halfway {y : Number .binary64} {i : Nat} (hk : k < F.infinityRank)
    (hvalue : n.value = F.halfway k) (hy : n.RoundsTo y) : ¬ F.Crosses n.value y.magnitude i := by
  have hnearest := hy.isNearest
  rw [hvalue] at hnearest ⊢
  exact hnearest.not_crosses F.width_le_binary64 hk

/-- There is one way to misread a value. -/
theorem Misread.round_eq (hm : n.Misread F) (hm' : n'.Misread F) (hsign : n.negative = n'.negative)
    (hvalue : n.value = n'.value) : n.round F = n'.round F := by
  cases hm with
  | long hk hhalfway _ hlong =>
    cases hm' with
    | long _ _ _ hlong' =>
      rw [round_of_long hlong, round_of_long hlong']
      refine Number.ext ?_ (Number.rank_eq_of_forall_le_iff fun k hk => ?_)
      · rw [Number.negative_ofDecimal, Number.negative_ofDecimal, hsign]
      · rw [Number.rank_ofDecimal_abridge_le_iff hlong hk, Number.rank_ofDecimal_abridge_le_iff hlong' hk]
        exact iff_of_eq (congrArg (· < F.halfway k) hvalue)
    | detour _ _ _ _ _ hy hcrosses =>
      exact absurd hcrosses (not_crosses_of_halfway hk (hvalue ▸ hhalfway) hy)
  | detour _ hplain hnegative hlower hupper hy hcrosses =>
    cases hm' with
    | long hk' hhalfway =>
      exact absurd hcrosses (not_crosses_of_halfway hk' (hvalue.trans hhalfway) hy)
    | detour _ hplain' hnegative' hlower' hupper' =>
      have hsame := (roundsTo_congr hsign hvalue).mp (roundsTo_ofDecimal .binary64 n)
      rw [round_of_detour hplain hnegative hlower hupper,
        round_of_detour hplain' hnegative' hlower' hupper',
        (roundsTo_ofDecimal .binary64 n').iff_eq.mp hsame]

/-- **Numerals of the same value are read alike** exactly if both are misread or neither is. -/
theorem Spells.round_eq_iff (hn : n.Spells text) (hn' : n'.Spells text')
    (hsign : n.negative = n'.negative) (hvalue : n.value = n'.value) :
    n.round F = n'.round F ↔ (n.Misread F ↔ n'.Misread F) := by
  have hrounds := hn.roundsTo_round_iff F
  have hrounds' := hn'.roundsTo_round_iff F
  rw [← roundsTo_congr hsign hvalue] at hrounds'
  constructor
  · intro hsame
    rw [← hsame] at hrounds'
    exact not_iff_not.mp (hrounds.symm.trans hrounds')
  · intro hboth
    by_cases hmisread : n.Misread F
    · exact hmisread.round_eq (hboth.mp hmisread) hsign hvalue
    · exact (hrounds'.mpr (mt hboth.mpr hmisread)).iff_eq.mp (hrounds.mpr hmisread)

-- As a plain integer it crosses a halfway point of `binary32`. With an exponent it is rounded once.
example : round .binary32 ⟨true, 9223372586610589697, 0, true⟩ ≠
    round .binary32 ⟨true, 9223372586610589697, 0, false⟩ := by decide +kernel

/-! ## Spellings of whole numbers -/

/-- All digits, and nothing else. -/
theorem spells_digits (c : Nat) : Spells (Decimal.digits c) ⟨false, c, 0, true⟩ := by
  have hspells := Spells.parts false (spellsWhole_digits c) .none .none
  have hparts : ofParts false (Decimal.digits c) [] none = ⟨false, c, 0, true⟩ := by
    simp [ofParts, dropTrailingZeros]
  rw [List.append_nil, List.append_nil, hparts] at hspells
  exact hspells

/-- Digits, and an exponent behind them. -/
theorem spells_exponentText (plusSign : Bool) (c : Nat) (e : Int) :
    Spells (Decimal.digits c ++ 'e' :: Decimal.exponentText plusSign e) ⟨false, c, e, false⟩ := by
  have hspells := Spells.parts false (spellsWhole_digits c) .none
    (spellsExponent_exponentText plusSign e)
  have hparts : ofParts false (Decimal.digits c) [] (some e) = ⟨false, c, e, false⟩ := by
    simp [ofParts, dropTrailingZeros]
  rw [List.append_nil, hparts] at hspells
  exact hspells

/-- Zeros behind the digits are made up for by the exponent. -/
theorem value_zeros (negative plain : Bool) (c z : Nat) :
    value ⟨negative, c * 10 ^ z, -z, plain⟩ = c := by
  show ((c * 10 ^ z : Nat) : ℚ) * 10 ^ (-z : Int) = c
  rw [zpow_neg, zpow_natCast]
  push_cast
  field_simp

end Json.Numeral

namespace Tree

/-- **How a value is spelled matters for misread numerals only.** Two numerals of the same value and sign
that are in range are both read as literals. A literal is the number nearest to its numeral, ties to even,
unless the numeral is misread: that is, unless its value lies halfway between two numbers with the even one
below and is written with more digits than are read, or it is a negative integer of 64 bits that crosses
such a point by way of `binary64`. The two literals have the same bits exactly if both numerals are misread
or neither is. -/
theorem ofJson_spelling {F : Format} {m n : List Char} {a b : Json.Numeral} (hm : a.Spells m)
    (hn : b.Spells n) (hsign : a.negative = b.negative) (hvalue : a.value = b.value)
    (hrange : a.value < F.overflow) :
    ∃ x y : Number F,
      ofJson F (String.ofList (Json.entry .num m)) = .ok (.num x) ∧
      ofJson F (String.ofList (Json.entry .num n)) = .ok (.num y) ∧
      (a.RoundsTo x ↔ ¬ a.Misread F) ∧ (b.RoundsTo y ↔ ¬ b.Misread F) ∧
      (x.toBits = y.toBits ↔ (a.Misread F ↔ b.Misread F)) := by
  have hfinite : (a.round F).isInfinite = false := by
    rw [← Bool.not_eq_true, hm.isInfinite_round_iff, not_le]
    exact hrange
  have hfinite' : (b.round F).isInfinite = false := by
    rw [← Bool.not_eq_true, hn.isInfinite_round_iff, not_le, ← hvalue]
    exact hrange
  refine ⟨a.round F, b.round F, ?_, ?_, hm.roundsTo_round_iff F, hn.roundsTo_round_iff F, ?_⟩
  · unfold ofJson
    rw [String.toList_ofList]
    exact Json.readText_leaf hm hfinite
  · unfold ofJson
    rw [String.toList_ofList]
    exact Json.readText_leaf hn hfinite'
  · rw [← hm.round_eq_iff hn hsign hvalue]
    exact ⟨Number.toBits_injective, congrArg Number.toBits⟩

/-! ## A halfway point, spelled in three ways -/

/-- The whole number halfway from `2 ^ 24` to the next number of `binary32`. -/
def tieText : List Char := Decimal.digits 16777217

def scientificTieText : List Char :=
  ['1', '.', '6', '7', '7', '7', '2', '1', '7', 'E', '+', '7']

/-- With so many zeros behind it that it has more digits than are read. -/
def longTieText : List Char :=
  Decimal.digits (16777217 * 10 ^ 130) ++ 'e' :: Decimal.exponentText false (-130)

theorem spells_tieText : Json.Numeral.Spells tieText ⟨false, 16777217, 0, true⟩ :=
  Json.Numeral.spells_digits 16777217

theorem spells_scientificTieText :
    Json.Numeral.Spells scientificTieText ⟨false, 16777217, 0, false⟩ := by
  have hwhole : Json.Numeral.Digits ['1'] := by simp [Json.Numeral.Digits]
  have hfraction : Json.Numeral.Digits ['6', '7', '7', '7', '2', '1', '7'] := by
    simp [Json.Numeral.Digits]
  have hexponent : Json.Numeral.Digits ['7'] := by simp [Json.Numeral.Digits]
  exact .parts false (.digits hwhole (by decide)) (.digits hfraction)
    (.digits (Or.inr rfl) .plus hexponent)

theorem spells_longTieText :
    Json.Numeral.Spells longTieText ⟨false, 16777217 * 10 ^ 130, -130, false⟩ :=
  Json.Numeral.spells_exponentText false (16777217 * 10 ^ 130) (-130)

theorem value_tieText : Json.Numeral.value ⟨false, 16777217, 0, true⟩ = 16777217 := by
  norm_num [Json.Numeral.value, Json.Numeral.magnitude, Decimal.value]

theorem value_longTieText :
    Json.Numeral.value ⟨false, 16777217 * 10 ^ 130, -130, false⟩ = 16777217 :=
  Json.Numeral.value_zeros false false 16777217 130

theorem tieText_lt_overflow :
    Json.Numeral.value ⟨false, 16777217, 0, true⟩ < Format.overflow .binary32 := by
  rw [value_tieText]
  exact_mod_cast (by decide +kernel : 16777217 < Format.overflow .binary32)

/-- With few digits it is the same whether there is an exponent. -/
theorem ofJson_spelling_tie : ∃ x : Number .binary32,
    ofJson .binary32 (String.ofList (Json.entry .num tieText)) = .ok (.num x) ∧
    ofJson .binary32 (String.ofList (Json.entry .num scientificTieText)) = .ok (.num x) ∧
    Json.Numeral.RoundsTo ⟨false, 16777217, 0, true⟩ x := by
  have hmisread (plain : Bool) : ¬ Json.Numeral.Misread .binary32 ⟨false, 16777217, 0, plain⟩ :=
    Json.Numeral.not_misread (show 16777217 < 10 ^ 113 by decide) fun h => Bool.noConfusion h.2.1
  obtain ⟨x, y, hx, hy, hrounds, -, hsame⟩ :=
    ofJson_spelling spells_tieText spells_scientificTieText rfl rfl tieText_lt_overflow
  obtain rfl := Number.toBits_injective (hsame.mpr (iff_of_false (hmisread _) (hmisread _)))
  exact ⟨x, hx, hy, hrounds.mpr (hmisread _)⟩

/-- **The same value is read in two ways**: with zeros behind more digits than are read it is rounded up. -/
theorem ofJson_depends_on_spelling :
    ¬ ∀ (F : Format) (m n : List Char) (a b : Json.Numeral), a.Spells m → b.Spells n →
      a.negative = b.negative → a.value = b.value → a.value < F.overflow →
        ofJson F (String.ofList (Json.entry .num m)) = ofJson F (String.ofList (Json.entry .num n)) := by
  intro h
  have hread := h .binary32 _ _ _ _ spells_tieText spells_longTieText rfl
    (value_tieText.trans value_longTieText.symm) tieText_lt_overflow
  unfold ofJson at hread
  rw [String.toList_ofList, String.toList_ofList, Json.readText_leaf spells_tieText (by decide +kernel),
    Json.readText_leaf spells_longTieText (by decide +kernel)] at hread
  have hdiffer : Json.Numeral.round .binary32 ⟨false, 16777217, 0, true⟩ ≠
      Json.Numeral.round .binary32 ⟨false, 16777217 * 10 ^ 130, -130, false⟩ := by
    decide +kernel
  injection hread with htree
  injection htree with hnumber
  exact hdiffer hnumber

end Tree

end ArithTree
