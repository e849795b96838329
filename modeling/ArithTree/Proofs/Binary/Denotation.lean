import ArithTree.Proofs.Binary.Layout
import ArithTree.Proofs.Decimal.Fewest
import ArithTree.Proofs.Tree.Debug

/-!
# All texts of a number denote it

A number has a text in trees, one in debug output and one in JSON (`SPEC_FULL.md`, A.11, A.6 and A.5).
Each is a numeral, and the number is the nearest one to the exact value of this numeral, ties to even, with
the sign of the numeral. The digits are those of shortest decimals, except that integral numbers have all
their digits in trees, so that the texts differ in the choice between two decimals that are equally near at
most.

* `Numeral.RoundsTo`: rounding, by exact values.
* `Number.exists_spells_text`: the text in a tree is a numeral, of the exact value or of the shortest
  decimal.
* `Number.texts_denote`: what the three texts have in common.
-/

namespace ArithTree

variable {F : Format} {x y : Number F}

/-! ## Rounding, by exact values -/

namespace Json.Numeral

variable {n : Numeral}

/-- The number is the nearest one to the exact value of the numeral, ties to even, and has its sign. -/
structure RoundsTo (n : Numeral) (x : Number F) : Prop where
  negative_eq : n.negative = x.negative
  nearest : x.IsNearest (withSign n.negative n.value)

/-- A numeral is rounded to one number at most. -/
theorem RoundsTo.iff_eq (h : n.RoundsTo x) : n.RoundsTo y ↔ y = x := by
  constructor
  · intro hy
    exact h.nearest.unique hy.nearest (hy.negative_eq.symm.trans h.negative_eq)
  · rintro rfl
    exact h

/-- The digits of a numeral, without zeros in front and at the end. -/
def significantDigits (n : Numeral) : List Char := n.magnitude.significantDigits

end Json.Numeral

namespace Decimal

variable {d d' : Decimal} {tie : Tie}

/-- To be shortest is a property of the value. -/
theorem IsShortest.of_value_eq (h : d.IsShortest x tie) (hvalue : d'.value = d.value) :
    d'.IsShortest x tie := by
  have hdigits := significantDigits_eq_of_value hvalue
  refine ⟨?_, ?_, ?_, ?_⟩
  · rw [hvalue]
    exact h.nearest
  · rw [hdigits]
    exact h.fewest
  · rw [hvalue, hdigits]
    exact h.closest
  · unfold Tie.Takes
    rw [hvalue, hdigits]
    exact h.takes

/-- Shortest decimals have equally many digits, and they are equally near to their number. -/
theorem IsShortest.length_eq {tie' : Tie} (h : d.IsShortest x tie) (h' : d'.IsShortest x tie') :
    d.significantDigits.length = d'.significantDigits.length ∧
      |d.value - x.magnitude| = |d'.value - x.magnitude| := by
  have hlength := Nat.le_antisymm (h.fewest d' h'.nearest) (h'.fewest d h.nearest)
  exact ⟨hlength, le_antisymm (h.closest d' h'.nearest hlength.symm)
    (h'.closest d h.nearest hlength)⟩

end Decimal

namespace Number

/-! ## Texts in trees -/

/-- The text of a finite number is a numeral of its exact value, or of its shortest decimal if it is not
integral. -/
theorem exists_spells_text (hx : x.isInfinite = false) :
    ∃ n : Json.Numeral, n.Spells x.text ∧ n.negative = x.negative ∧
      (x.isIntegral → n.value = x.magnitude) ∧
      (x.isIntegral = false → n.value = (x.shortest .away).value) := by
  cases hintegral : x.isIntegral with
  | true =>
    obtain ⟨hwhole, hvalue⟩ := magnitudeText_integral hx hintegral
    have hspells := Json.Numeral.Spells.parts x.negative hwhole .none .none
    rw [List.append_nil, List.append_nil] at hspells
    refine ⟨_, hspells, rfl, fun _ => ?_, nofun⟩
    rw [Json.Numeral.value_ofParts, List.append_nil, hvalue, abs_value]
    exact mul_one _
  | false =>
    have hneg := shortest_exponent_neg .away hintegral
    have htext : x.text = x.signText ++ (x.shortest .away).positional :=
      congrArg (x.signText ++ ·) (magnitudeText_of_not_isIntegral hintegral)
    rw [htext]
    generalize x.shortest .away = d at hneg
    obtain ⟨c, e⟩ := d
    obtain ⟨m, rfl⟩ := Decimal.exists_negSucc hneg
    obtain ⟨n, hspells, hstands⟩ := Json.Numeral.exists_spells_decimals x.negative c m
    exact ⟨n, hspells.spells, hstands.negative_eq, nofun, fun _ => hstands.value_eq⟩

/-! ## All texts -/

/-- A numeral with the sign of a number and a shortest decimal as its value is rounded to this number. -/
theorem roundsTo_of_isShortest {n : Json.Numeral} {d : Decimal} {tie : Tie}
    (hnegative : n.negative = x.negative) (h : d.IsShortest x tie) (hvalue : n.value = d.value) :
    n.RoundsTo x := by
  refine ⟨hnegative, ?_⟩
  rw [hnegative, hvalue]
  exact h.nearest

/-- **All texts of a finite number denote it.** The texts in trees, in debug output and in JSON are
numerals, each of which is rounded to this number and to no other one, the sign of a zero included. In
debug output and in JSON, and in trees if the number is not integral, no decimal that is rounded to the
number has fewer significant digits, and none with as many is nearer to it. Of two that are equally near,
trees and debug output have the larger one, and JSON has the one with the even digit. -/
theorem texts_denote (x : Number F) (hx : x.isInfinite = false) :
    ∃ display debug json : Json.Numeral,
      display.Spells x.text ∧ debug.Spells x.debugText ∧ json.Spells x.jsonText ∧
      (∀ y : Number F, display.RoundsTo y ↔ y = x) ∧
      (∀ y : Number F, debug.RoundsTo y ↔ y = x) ∧
      (∀ y : Number F, json.RoundsTo y ↔ y = x) ∧
      debug.magnitude.IsShortest x .away ∧ json.magnitude.IsShortest x .even ∧
      (x.isIntegral = false →
        display.magnitude.IsShortest x .away ∧ display.value = debug.value ∧
          display.significantDigits = debug.significantDigits) ∧
      debug.significantDigits.length = json.significantDigits.length ∧
      |debug.value - x.magnitude| = |json.value - x.magnitude| := by
  have haway := isShortest_shortest .away hx
  have heven := isShortest_shortest .even hx
  obtain ⟨display, hdisplay, hsign, hexact, hshortest⟩ := exists_spells_text hx
  obtain ⟨debug, hdebug, hdebugSign, hdebugValue⟩ := exists_spells_debugText hx
  obtain ⟨json, hjson, hstands⟩ := exists_standsFor_jsonText hx
  have htie : (NumberStyle.json F).tie = .even := by cases F <;> rfl
  have hjsonValue : json.value = (x.shortest .even).value := htie ▸ hstands.value_eq
  have hdisplayRounds : display.RoundsTo x := by
    cases hintegral : x.isIntegral with
    | true =>
      refine ⟨hsign, ?_⟩
      rw [hsign, hexact hintegral, isNearest_iff_covers hx x.magnitude_nonneg]
      exact covers_magnitude x
    | false => exact roundsTo_of_isShortest hsign haway (hshortest hintegral)
  have hdebugRounds := roundsTo_of_isShortest hdebugSign haway hdebugValue
  have hjsonRounds := roundsTo_of_isShortest hstands.negative_eq heven hjsonValue
  have hdebugShortest : debug.magnitude.IsShortest x .away := haway.of_value_eq hdebugValue
  have hjsonShortest : json.magnitude.IsShortest x .even := heven.of_value_eq hjsonValue
  refine ⟨display, debug, json, hdisplay, hdebug, hjson.spells, fun _ => hdisplayRounds.iff_eq,
    fun _ => hdebugRounds.iff_eq, fun _ => hjsonRounds.iff_eq, hdebugShortest, hjsonShortest,
    fun hintegral => ?_, hdebugShortest.length_eq hjsonShortest⟩
  have hvalue : display.value = debug.value := (hshortest hintegral).trans hdebugValue.symm
  exact ⟨haway.of_value_eq (hshortest hintegral), hvalue,
    Decimal.significantDigits_eq_of_value hvalue⟩

/-- Two to the power of minus twelve lies halfway between two decimals of eight digits. -/
theorem texts_denote_halfway :
    let x : Number .binary32 := ofDecimal .binary32 false ⟨244140625, -12⟩
    x.isInfinite = false ∧ ∃ debug json : Json.Numeral,
      debug.Spells "0.00024414063".toList ∧ json.Spells "0.00024414062".toList ∧
      (∀ y : Number .binary32, debug.RoundsTo y ↔ y = x) ∧
      (∀ y : Number .binary32, json.RoundsTo y ↔ y = x) ∧
      |debug.value - x.magnitude| = |json.value - x.magnitude| := by
  intro x
  have hx : x.isInfinite = false := by decide +kernel
  have hdebugText : x.debugText = "0.00024414063".toList := by decide +kernel
  have hjsonText : x.jsonText = "0.00024414062".toList := by decide +kernel
  obtain ⟨-, debug, json, -, hdebug, hjson, -, hdebugRounds, hjsonRounds, -, -, -, -, hequal⟩ :=
    texts_denote x hx
  exact ⟨hx, debug, json, hdebugText ▸ hdebug, hjsonText ▸ hjson, hdebugRounds, hjsonRounds, hequal⟩

end Number

end ArithTree
