import ArithTree.Proofs.Binary.Text
import ArithTree.Proofs.Decimal.Length
import ArithTree.Proofs.Decimal.Nearest
import ArithTree.Proofs.Json.Accepting

/-!
# The numerals that are written

The text of a finite number in JSON is positional or has an exponent. Either way it is a numeral, and
the numeral has the value of the shortest decimal, though not always its digits: zeros may stand in
front of the point, or behind the last digit. Since the shortest decimal is rounded to its number, so is
the numeral.

* `Numeral.StandsFor`: what a numeral has in common with the decimal that it was written for.
* `Number.exists_spells_jsonText`: the text of a finite number is a numeral that is read as this
  number, sign and all.
-/

namespace ArithTree

namespace Json.Numeral

variable {negative : Bool} {whole fraction : List Char} {exponent : Option Int}

/-! ## The value of a numeral -/

/-- The value of a numeral, its sign aside. -/
def value (n : Numeral) : ℚ := n.magnitude.value

theorem exists_dropTrailingZeros_append (ds : List Char) :
    ∃ z, ds = dropTrailingZeros ds ++ List.replicate z '0' := by
  refine ⟨(ds.reverse.takeWhile (· == '0')).length, ?_⟩
  have hzero : ∀ c ∈ ds.reverse.takeWhile (· == '0'), c = '0' := fun c hc =>
    beq_iff_eq.mp (List.mem_takeWhile_imp (p := (· == '0')) hc)
  have hzeros := List.eq_replicate_of_mem hzero
  have hsplit := List.takeWhile_append_dropWhile (p := (· == '0')) (l := ds.reverse)
  rw [← List.reverse_replicate, ← hzeros]
  unfold dropTrailingZeros
  rw [← List.reverse_append, hsplit, List.reverse_reverse]

/-- The digits of a numeral are those of its parts, without the zeros at the end of the fraction. -/
theorem exists_coefficient_ofParts (negative : Bool) (whole fraction : List Char)
    (exponent : Option Int) :
    ∃ z : Nat, Nat.ofDigitChars 10 (whole ++ fraction) 0
          = 10 ^ z * (ofParts negative whole fraction exponent).coefficient ∧
      (ofParts negative whole fraction exponent).exponent
          = exponent.getD 0 - fraction.length + z := by
  obtain ⟨z, hz⟩ := exists_dropTrailingZeros_append fraction
  refine ⟨z, ?_, ?_⟩
  · conv_lhs => rw [hz]
    rw [← List.append_assoc, Nat.ofDigitChars_append, Nat.ofDigitChars_replicate_zero]
    rfl
  · have hlength := congrArg List.length hz
    rw [List.length_append, List.length_replicate] at hlength
    simp only [ofParts]
    omega

theorem coefficient_ofParts_le :
    (ofParts negative whole fraction exponent).coefficient
      ≤ Nat.ofDigitChars 10 (whole ++ fraction) 0 := by
  obtain ⟨z, hz, -⟩ := exists_coefficient_ofParts negative whole fraction exponent
  rw [hz]
  exact Nat.le_mul_of_pos_left _ (Nat.pow_pos (by decide : 0 < 10))

theorem value_ofParts :
    (ofParts negative whole fraction exponent).value
      = Nat.ofDigitChars 10 (whole ++ fraction) 0 * 10 ^ (exponent.getD 0 - fraction.length) := by
  obtain ⟨z, hcoefficient, hexponent⟩ := exists_coefficient_ofParts negative whole fraction exponent
  unfold value Decimal.value magnitude
  rw [hcoefficient, hexponent, zpow_add₀ (by norm_num), zpow_natCast]
  push_cast
  ring

end Json.Numeral

namespace Json.Numeral

open Decimal (digits)

variable {negative : Bool} {whole fraction : List Char} {exponent : Option Int}

theorem digits_digits (n : Nat) : Digits (digits n) :=
  ⟨Decimal.digits_ne_nil n, fun _ hc => Decimal.isDigit_of_mem_digits hc⟩

theorem spellsWhole_digits (n : Nat) : SpellsWhole (digits n) := by
  rcases Nat.eq_zero_or_pos n with rfl | hn
  · exact .zero
  · exact .digits (digits_digits n) (Decimal.zero_notMem_head_digits hn)

/-! ## The numerals that are written -/

/-- The numeral stands for the decimal, with this sign. It is not plain, and it has no more than `z`
digits besides those of the decimal. -/
structure StandsFor (n : Numeral) (negative : Bool) (d : Decimal) (z : Nat) : Prop where
  negative_eq : n.negative = negative
  plain_eq : n.plain = false
  value_eq : n.value = d.value
  coefficient_le : n.coefficient ≤ d.coefficient * Nat.pow 10 z

theorem StandsFor.mono {n : Numeral} {d : Decimal} {j k : Nat} (h : n.StandsFor negative d j)
    (hjk : j ≤ k) : n.StandsFor negative d k :=
  ⟨h.negative_eq, h.plain_eq, h.value_eq, Nat.le_trans h.coefficient_le
    (Nat.mul_le_mul_left _ (Nat.pow_le_pow_right (by decide) hjk))⟩

/-- The digits of the parts are those of the decimal, and `z` zeros. -/
theorem standsFor_ofParts {d : Decimal} {z : Nat} (negative : Bool)
    (hplain : (fraction.isEmpty && exponent.isNone) = false)
    (hdigits : Nat.ofDigitChars 10 (whole ++ fraction) 0 = d.coefficient * 10 ^ z)
    (hexponent : exponent.getD 0 - fraction.length + z = d.exponent) :
    (ofParts negative whole fraction exponent).StandsFor negative d z := by
  refine ⟨rfl, hplain, ?_, Nat.le_trans coefficient_ofParts_le (Nat.le_of_eq hdigits)⟩
  rw [value_ofParts, hdigits]
  unfold Decimal.value
  rw [← hexponent, zpow_add₀ (by norm_num), zpow_natCast]
  push_cast
  ring

/-- A whole number, with a zero behind the point. -/
theorem exists_spells_whole (negative : Bool) (c m : Nat) :
    ∃ n : Numeral, n.SpellsNormally
        (signText negative ++ (digits (c * Nat.pow 10 m) ++ ['.', '0'])) ∧
      n.StandsFor negative ⟨c, .ofNat m⟩ (m + 1) := by
  have hzero : Digits ['0'] := by simp [Digits]
  have hspells := SpellsNormally.parts negative (spellsWhole_digits (c * Nat.pow 10 m))
    (.digits hzero) .none (Or.inl rfl)
  rw [List.append_nil, List.append_assoc] at hspells
  refine ⟨_, hspells, standsFor_ofParts negative rfl ?_ ?_⟩
  · rw [Nat.ofDigitChars_append, Decimal.ofDigitChars_digits, Nat.pow_succ, ← Nat.mul_assoc,
      Nat.mul_comm _ 10]
    rfl
  · simp

/-- A number with decimals. -/
theorem exists_spells_decimals (negative : Bool) (c m : Nat) :
    ∃ n : Numeral, n.SpellsNormally (signText negative ++ (digits (c / Nat.pow 10 (m + 1)) ++
        '.' :: Decimal.paddedDigits (m + 1) (c % Nat.pow 10 (m + 1)))) ∧
      n.StandsFor negative ⟨c, .negSucc m⟩ 0 := by
  have hlt : c % Nat.pow 10 (m + 1) < Nat.pow 10 (m + 1) :=
    Nat.mod_lt c (Nat.pow_pos (by decide : 0 < 10))
  have hlength := Decimal.length_paddedDigits hlt
  have hdecimals : Digits (Decimal.paddedDigits (m + 1) (c % Nat.pow 10 (m + 1))) :=
    ⟨List.ne_nil_of_length_eq_add_one hlength,
      fun _ hc => Decimal.isDigit_of_mem_paddedDigits hc⟩
  have hspells := SpellsNormally.parts negative (spellsWhole_digits (c / Nat.pow 10 (m + 1)))
    (.digits hdecimals) .none (Or.inl rfl)
  rw [List.append_nil, List.append_assoc] at hspells
  refine ⟨_, hspells, standsFor_ofParts negative ?_ ?_ ?_⟩
  · rw [List.isEmpty_eq_false_iff.mpr hdecimals.1]
    rfl
  · rw [Nat.ofDigitChars_append, Decimal.ofDigitChars_digits, Nat.ofDigitChars_eq_ofDigitChars_zero,
      Decimal.ofDigitChars_paddedDigits, hlength]
    show Nat.pow 10 (m + 1) * _ + _ = c * 1
    rw [Nat.mul_one]
    exact Nat.div_add_mod c _
  · rw [hlength, Int.negSucc_eq]
    simp

theorem spellsExponent_exponentText (plusSign : Bool) (e : Int) :
    SpellsExponent ('e' :: Decimal.exponentText plusSign e) (some e) := by
  have hsigned {sign : List Char} {negative : Bool} (hsign : SpellsSign sign negative)
      (he : signed negative (digits e.natAbs) = e) :
      SpellsExponent ('e' :: (sign ++ digits e.natAbs)) (some e) := by
    have hspells := SpellsExponent.digits (Or.inl rfl) hsign (digits_digits e.natAbs)
    rwa [he] at hspells
  unfold signed at hsigned
  rw [Decimal.ofDigitChars_digits] at hsigned
  unfold Decimal.exponentText
  by_cases he : e < 0
  · rw [if_pos he]
    exact hsigned .minus (by simp only [if_true]; omega)
  · rw [if_neg he]
    cases plusSign with
    | true => exact hsigned .plus (by simp only [Bool.false_eq_true, if_false]; omega)
    | false => exact hsigned .none (by simp only [Bool.false_eq_true, if_false]; omega)

/-- The leading digit, the other digits as decimals, and an exponent. -/
theorem exists_spells_scientific (negative plusSign : Bool) (d : Decimal) :
    ∃ n : Numeral, n.SpellsNormally (signText negative ++ d.scientific plusSign) ∧
      n.StandsFor negative d 0 := by
  obtain ⟨first, others, hsplit⟩ :=
    List.exists_cons_of_ne_nil (Decimal.digits_ne_nil d.coefficient)
  have hdigits : Digits (first :: others) := hsplit ▸ digits_digits d.coefficient
  have hvalue : Nat.ofDigitChars 10 ([first] ++ others) 0 = d.coefficient := by
    rw [List.singleton_append, ← hsplit, Decimal.ofDigitChars_digits]
  have hwhole : SpellsWhole [first] := by
    by_cases hzero : first = '0'
    · exact hzero ▸ .zero
    · refine .digits ⟨List.cons_ne_nil _ _, fun c hc => ?_⟩ ?_
      · exact hdigits.2 c (List.mem_cons.mpr (Or.inl (List.mem_singleton.mp hc)))
      · exact fun h => hzero (Option.some.inj h)
  have hfraction : SpellsFraction
      (if 1 < (digits d.coefficient).length then '.' :: (digits d.coefficient).drop 1 else [])
      others := by
    rw [hsplit]
    cases others with
    | nil => exact .none
    | cons second others =>
      exact .digits ⟨List.cons_ne_nil _ _, fun c hc => hdigits.2 c (List.mem_cons_of_mem _ hc)⟩
  have hspells := SpellsNormally.parts negative hwhole hfraction
    (spellsExponent_exponentText plusSign d.leadingExponent) (Or.inr rfl)
  have htake : (digits d.coefficient).take 1 = [first] := by
    rw [hsplit]
    rfl
  rw [← htake, List.append_assoc, List.append_assoc, ← List.append_assoc (List.take ..)] at hspells
  refine ⟨_, hspells, standsFor_ofParts negative ?_ ?_ ?_⟩
  · rw [Bool.and_eq_false_iff]
    exact Or.inr rfl
  · rw [htake, hvalue, Nat.pow_zero, Nat.mul_one]
  · unfold Decimal.leadingExponent
    rw [hsplit, List.length_cons, Option.getD_some]
    omega

theorem exists_spells_positionalWithPoint (negative : Bool) (d : Decimal) :
    ∃ n : Numeral, n.SpellsNormally (signText negative ++ d.positionalWithPoint) ∧
      n.StandsFor negative d (d.exponent + 1).toNat := by
  obtain ⟨c, e⟩ := d
  unfold Decimal.positionalWithPoint
  cases e with
  | ofNat m =>
    have hnonneg : 0 ≤ Int.ofNat m := Int.natCast_nonneg m
    rw [if_pos hnonneg]
    exact exists_spells_whole negative c m
  | negSucc m =>
    have hneg : ¬ 0 ≤ Int.negSucc m := Int.not_le.mpr (Int.negSucc_lt_zero m)
    rw [if_neg hneg]
    obtain ⟨n, hn, hstands⟩ := exists_spells_decimals negative c m
    exact ⟨n, hn, hstands.mono (Nat.zero_le _)⟩

/-- What is written in a style is spelled as a numeral of the decimal. -/
theorem exists_spells_write (style : NumberStyle) (negative : Bool) (d : Decimal) :
    ∃ n : Numeral, n.SpellsNormally (signText negative ++ style.write d) ∧
      n.StandsFor negative d (style.highest.toNat + 1) := by
  unfold NumberStyle.write
  by_cases hpositional : style.lowest ≤ d.leadingExponent ∧ d.leadingExponent ≤ style.highest
  · rw [if_pos hpositional]
    obtain ⟨n, hn, hstands⟩ := exists_spells_positionalWithPoint negative d
    refine ⟨n, hn, hstands.mono ?_⟩
    have hlength : 0 < (digits d.coefficient).length :=
      List.length_pos_iff.mpr (Decimal.digits_ne_nil d.coefficient)
    have hhighest := hpositional.2
    unfold Decimal.leadingExponent at hhighest
    omega
  · rw [if_neg hpositional]
    obtain ⟨n, hn, hstands⟩ := exists_spells_scientific negative style.plusSign d
    exact ⟨n, hn, hstands.mono (Nat.zero_le _)⟩

/-! ## The numbers that are read back -/

theorem round_of_not_plain {F : Format} {n : Numeral} (h : n.plain = false) :
    n.round F = .ofDecimal F n.negative (n.magnitude.abridge (digitsRead F)) := by
  have hinteger : n.integer? = none := by
    unfold integer?
    rw [h]
    rfl
  unfold round
  rw [hinteger, h]
  exact if_neg fun hplain => Bool.false_ne_true hplain.1

end Json.Numeral

namespace Number

variable {F : Format} {x : Number F}

open Json

/-- No numeral that is written has more digits than are read. -/
theorem digits_lt_digitsRead (F : Format) :
    60 * F.hiddenBit * Nat.pow 10 ((NumberStyle.json F).highest.toNat + 1)
      < Nat.pow 10 (Numeral.digitsRead F) := by
  cases F <;> decide +kernel

/-- The text of a finite number is a numeral that stands for its shortest decimal. -/
theorem exists_standsFor_jsonText (hx : x.isInfinite = false) :
    ∃ n : Numeral, n.SpellsNormally x.jsonText ∧ n.StandsFor x.negative
      (x.shortest (NumberStyle.json F).tie) ((NumberStyle.json F).highest.toNat + 1) := by
  unfold jsonText
  rw [if_neg (Bool.eq_false_iff.mp hx)]
  exact Numeral.exists_spells_write (NumberStyle.json F) x.negative
    (x.shortest (NumberStyle.json F).tie)

/-- **The text of a finite number is a numeral that is read as this number.** -/
theorem exists_spells_jsonText (hx : x.isInfinite = false) :
    ∃ n : Numeral, n.Spells x.jsonText ∧ n.Denotes F x := by
  obtain ⟨n, hspells, hstands⟩ := exists_standsFor_jsonText hx
  obtain ⟨p, hp, hvalue⟩ := exists_steps_shortest (NumberStyle.json F).tie x
  have hcoefficient : n.magnitude.coefficient < Nat.pow 10 (Numeral.digitsRead F) := by
    refine Nat.lt_of_le_of_lt (Nat.le_trans hstands.coefficient_le ?_) (digits_lt_digitsRead F)
    exact Nat.mul_le_mul_right _ (coefficient_shortest_le _ x)
  have hround : n.round F = x := by
    rw [Numeral.round_of_not_plain hstands.plain_eq, Decimal.abridge_of_lt hcoefficient,
      hstands.negative_eq]
    refine ofDecimal_eq_of_contains hp ?_
    rw [← hvalue, ← hstands.value_eq]
    rfl
  exact ⟨n, hspells.spells, hround.symm ▸ hx, hround⟩

/-- The text of a finite number is read as this number, whatever ends it. -/
theorem readLiteral_jsonText (hx : x.isInfinite = false) {rest : List Char}
    (hrest : Numeral.Ends rest) : readLiteral F (x.jsonText ++ rest) = .ok (x, rest) := by
  obtain ⟨n, hspells, hdenotes⟩ := exists_spells_jsonText hx
  exact readLiteral_append blank_nil hspells hdenotes hrest

/-- Without an infinity there is no `n` in the text of a number. -/
theorem n_notMem_jsonText (hx : x.isInfinite = false) : 'n' ∉ x.jsonText := by
  obtain ⟨n, hspells, -⟩ := exists_spells_jsonText hx
  intro h
  cases Numeral.isTextChar_of_mem hspells h

end Number

end ArithTree
