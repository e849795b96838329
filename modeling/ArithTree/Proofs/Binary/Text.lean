import Mathlib.Data.List.Basic
import ArithTree.Binary.Text
import ArithTree.Proofs.Decimal.Digits
import ArithTree.Proofs.Decimal.Shortest

/-!
# The text of a number determines the number

In a rendered tree there are three kinds of magnitudes: infinity, the digits of a whole number, and
the digits of a shortest decimal around a point. A point stands in the texts of the last kind only,
and an `i` in that of infinity, so that equal texts are texts of the same kind.

* `Decimal.positional_inj`: a decimal with decimals is determined by its digits and its point.
* `Number.magnitudeText_inj`, `Number.text_injective`: of every kind, only one number has a text.
* `Number.isTextChar_of_mem_text`: the characters of these texts, none of which can stand in a
  rendered tree behind a number.
-/

namespace ArithTree

/-- What a text starts with is in its first part, unless that is empty. -/
theorem mem_of_append_eq_cons {l u w : List Char} {c : Char} (hl : l ≠ [])
    (h : l ++ u = c :: w) : c ∈ l := by
  obtain ⟨first, rest, rfl⟩ := List.exists_cons_of_ne_nil hl
  obtain rfl : first = c := (List.cons.inj h).1
  exact List.mem_cons_self ..

/-- A prefix of a text in two parts ends in the first part, or goes on into the second. -/
theorem prefix_append_cases {p u v : List Char} (h : p <+: u ++ v) :
    p <+: u ∨ ∃ q, p = u ++ q ∧ q <+: v := by
  rcases List.prefix_or_prefix_of_prefix h (List.prefix_append u v) with hp | ⟨q, rfl⟩
  · exact Or.inl hp
  · exact Or.inr ⟨q, rfl, (List.prefix_append_right_inj u).mp h⟩

/-- A prefix of a single character. -/
theorem prefix_singleton_cases {p : List Char} {c : Char} (h : p <+: [c]) : p = [] ∨ p = [c] := by
  rcases List.prefix_cons_iff.mp h with rfl | ⟨q, rfl, hq⟩
  · exact Or.inl rfl
  · rw [List.prefix_nil.mp hq]
    exact Or.inr rfl

namespace Decimal

/-! ## Decimals with a point -/

theorem exists_negSucc {e : Int} (h : e < 0) : ∃ n : Nat, e = .negSucc n := by
  cases e with
  | ofNat n => exact absurd h (by simp)
  | negSucc n => exact ⟨n, rfl⟩

theorem point_mem_positional {d : Decimal} (h : d.exponent < 0) : '.' ∈ d.positional := by
  obtain ⟨c, e⟩ := d
  obtain ⟨n, rfl⟩ := exists_negSucc h
  exact List.mem_append_right _ (List.mem_cons_self ..)

/-- The digits on both sides of the point give the coefficient, and those behind it the exponent. -/
theorem positional_inj {d d' : Decimal} (h : d.exponent < 0) (h' : d'.exponent < 0)
    (heq : d.positional = d'.positional) : d = d' := by
  obtain ⟨c, e⟩ := d
  obtain ⟨c', e'⟩ := d'
  obtain ⟨n, rfl⟩ := exists_negSucc h
  obtain ⟨n', rfl⟩ := exists_negSucc h'
  have hpow (k : Nat) : 0 < Nat.pow 10 (k + 1) := Nat.pow_pos (by decide : 0 < 10)
  obtain ⟨hwhole, -, hbehind⟩ := (List.append_cons_inj_of_notMem (point_notMem_digits _)
    (point_notMem_paddedDigits _ _)).mp heq.symm
  have hquotient := digits_injective hwhole
  have hlength := congrArg List.length hbehind
  rw [length_paddedDigits (Nat.mod_lt _ (hpow n')), length_paddedDigits (Nat.mod_lt _ (hpow n))]
    at hlength
  obtain rfl : n' = n := Nat.succ.inj hlength
  have hremainder := congrArg (fun l => Nat.ofDigitChars 10 l 0) hbehind
  simp only [ofDigitChars_paddedDigits] at hremainder
  have hcoefficient : c = c' := by
    rw [← Nat.div_add_mod c (Nat.pow 10 (n' + 1)), ← hquotient, ← hremainder, Nat.div_add_mod]
  rw [hcoefficient]

end Decimal

namespace Number

variable {F : Format}

/-! ## Magnitudes -/

/-- A magnitude has digits, a point, or the letters of infinity. -/
theorem mem_magnitudeText {x : Number F} {c : Char} (h : c ∈ x.magnitudeText) :
    c.isDigit ∨ (c = '.' ∧ x.isIntegral = false) ∨ (c ∈ ['i', 'n', 'f'] ∧ x.isInfinite) := by
  unfold magnitudeText at h
  split at h
  · exact Or.inr (Or.inr ⟨h, ‹_›⟩)
  split at h
  · exact Or.inl (Decimal.isDigit_of_mem_digits h)
  · rename_i hintegral
    have hneg := shortest_exponent_neg .away (Bool.not_eq_true _ ▸ hintegral)
    generalize x.shortest .away = d at h hneg
    obtain ⟨coefficient, e⟩ := d
    obtain ⟨n, rfl⟩ := Decimal.exists_negSucc hneg
    rcases List.mem_append.mp h with h | h
    · exact Or.inl (Decimal.isDigit_of_mem_digits h)
    rcases List.mem_cons.mp h with rfl | h
    · exact Or.inr (Or.inl ⟨rfl, Bool.not_eq_true _ ▸ hintegral⟩)
    · exact Or.inl (Decimal.isDigit_of_mem_paddedDigits h)

theorem magnitudeText_of_isInfinite {x : Number F} (h : x.isInfinite) :
    x.magnitudeText = ['i', 'n', 'f'] := if_pos h

theorem magnitudeText_of_isIntegral {x : Number F} (hx : x.isInfinite = false)
    (h : x.isIntegral) : x.magnitudeText = Decimal.digits (x.units / F.unitsPerOne) := by
  unfold magnitudeText
  rw [if_neg (Bool.eq_false_iff.mp hx), if_pos h]

theorem magnitudeText_of_not_isIntegral {x : Number F} (h : x.isIntegral = false) :
    x.magnitudeText = (x.shortest .away).positional := by
  have hx := (isIntegral_eq_false_iff.mp h).1
  unfold magnitudeText
  rw [if_neg (Bool.eq_false_iff.mp hx), if_neg (Bool.eq_false_iff.mp h)]

/-- Only infinity is written with an `i`. -/
theorem i_mem_magnitudeText {x : Number F} : 'i' ∈ x.magnitudeText ↔ x.isInfinite := by
  constructor
  · intro h
    rcases mem_magnitudeText h with h | ⟨h, -⟩ | ⟨-, h⟩
    · exact absurd h (by decide)
    · exact absurd h (by decide)
    · exact h
  · intro h
    rw [magnitudeText_of_isInfinite h]
    decide

/-- Only numbers that are not integral are written with a point. -/
theorem point_mem_magnitudeText {x : Number F} :
    '.' ∈ x.magnitudeText ↔ x.isIntegral = false := by
  constructor
  · intro h
    rcases mem_magnitudeText h with h | ⟨-, h⟩ | ⟨h, -⟩
    · exact absurd h (by decide)
    · exact h
    · exact absurd h (by decide)
  · intro h
    rw [magnitudeText_of_not_isIntegral h]
    exact Decimal.point_mem_positional (shortest_exponent_neg .away h)

/-- The units of a finite integral number are its whole number of ones. -/
theorem units_div_mul {x : Number F} (hx : x.isInfinite = false) (h : x.isIntegral) :
    x.units / F.unitsPerOne * F.unitsPerOne = x.units := by
  unfold isIntegral at h
  rw [hx, Bool.false_or, beq_iff_eq] at h
  exact Nat.div_mul_cancel (Nat.dvd_of_mod_eq_zero h)

/-- **Numbers with the same text of their magnitudes have the same magnitude.** -/
theorem magnitudeText_inj {x y : Number F} (h : x.magnitudeText = y.magnitudeText) :
    x.rank = y.rank := by
  have hinfinite : x.isInfinite = y.isInfinite := by
    rw [Bool.eq_iff_iff, ← i_mem_magnitudeText, ← i_mem_magnitudeText, h]
  have hintegral : x.isIntegral = false ↔ y.isIntegral = false := by
    rw [← point_mem_magnitudeText, ← point_mem_magnitudeText, h]
  by_cases hx : x.isInfinite
  · rw [isInfinite_iff.mp hx, isInfinite_iff.mp (hinfinite ▸ hx)]
  rw [Bool.not_eq_true] at hx
  have hy : y.isInfinite = false := hinfinite ▸ hx
  by_cases hi : x.isIntegral = false
  · have hi' := hintegral.mp hi
    rw [magnitudeText_of_not_isIntegral hi, magnitudeText_of_not_isIntegral hi'] at h
    have hshortest := Decimal.positional_inj (shortest_exponent_neg .away hi)
      (shortest_exponent_neg .away hi') h
    exact rank_eq_of_shortest_eq (isZero_of_not_isIntegral hi) (isZero_of_not_isIntegral hi')
      hshortest
  · have hi' : ¬ y.isIntegral = false := mt hintegral.mpr hi
    rw [Bool.not_eq_false] at hi hi'
    rw [magnitudeText_of_isIntegral hx hi, magnitudeText_of_isIntegral hy hi'] at h
    have hunits : x.units = y.units := by
      rw [← units_div_mul hx hi, Decimal.digits_injective h, units_div_mul hy hi']
    exact F.units_strictMono.injective hunits

theorem magnitudeText_ne_nil (x : Number F) : x.magnitudeText ≠ [] := by
  unfold magnitudeText
  split
  · exact List.cons_ne_nil _ _
  split
  · exact Decimal.digits_ne_nil _
  · unfold Decimal.positional
    split
    · exact Decimal.digits_ne_nil _
    · exact List.append_ne_nil_of_left_ne_nil (Decimal.digits_ne_nil _) _

/-! ## Signs -/

theorem sign_notMem_magnitudeText (x : Number F) : '-' ∉ x.magnitudeText := by
  intro h
  rcases mem_magnitudeText h with h | ⟨h, -⟩ | ⟨h, -⟩
  · exact absurd h (by decide)
  · exact absurd h (by decide)
  · exact absurd h (by decide)

theorem text_of_negative {x : Number F} (h : x.negative) : x.text = '-' :: x.magnitudeText := by
  unfold text signText
  rw [if_pos h]
  rfl

theorem text_of_not_negative {x : Number F} (h : ¬ x.negative) : x.text = x.magnitudeText := by
  unfold text signText
  rw [if_neg h]
  rfl

/-- The sign is written for exactly the numbers that have it. -/
theorem sign_mem_text {x : Number F} : '-' ∈ x.text ↔ x.negative := by
  by_cases h : x.negative
  · rw [text_of_negative h]
    exact iff_of_true (List.mem_cons_self ..) h
  · rw [text_of_not_negative h]
    exact iff_of_false x.sign_notMem_magnitudeText h

theorem magnitudeText_neg (x : Number F) : x.neg.magnitudeText = x.magnitudeText := rfl

/-- A text that starts like a sign is that of a negative number, and behind the sign stands the
text of the opposite number. -/
theorem text_append_eq_sign {x : Number F} {u w : List Char} (h : x.text ++ u = '-' :: w) :
    x.neg.text ++ u = w := by
  by_cases hx : x.negative
  · have hneg : ¬ x.neg.negative := by
      rw [neg, hx]
      exact Bool.false_ne_true
    rw [text_of_negative hx] at h
    rw [text_of_not_negative hneg, magnitudeText_neg]
    exact (List.cons.inj h).2
  · rw [text_of_not_negative hx] at h
    have hmem : '-' ∈ x.magnitudeText := mem_of_append_eq_cons x.magnitudeText_ne_nil h
    exact absurd hmem x.sign_notMem_magnitudeText

/-- **The text of a number determines the number.** -/
theorem text_injective : Function.Injective (text (F := F)) := fun x y h => by
  have hnegative : x.negative = y.negative := by
    rw [Bool.eq_iff_iff, ← sign_mem_text, ← sign_mem_text, h]
  have hsign : x.signText = y.signText := by
    unfold signText
    rw [hnegative]
  unfold text at h
  rw [hsign] at h
  exact Number.ext hnegative (magnitudeText_inj (List.append_cancel_left h))

/-! ## Characters -/

/-- The characters of the texts of numbers. -/
def isTextChar (c : Char) : Bool := c.isDigit || c ∈ ['-', '.', 'i', 'n', 'f']

theorem isTextChar_of_mem_text {x : Number F} {c : Char} (h : c ∈ x.text) : isTextChar c := by
  unfold isTextChar
  rw [Bool.or_eq_true, decide_eq_true_eq]
  have hmagnitude : c ∈ x.magnitudeText → c.isDigit ∨ c ∈ ['-', '.', 'i', 'n', 'f'] := by
    intro h
    rcases mem_magnitudeText h with h | ⟨rfl, -⟩ | ⟨h, -⟩
    · exact Or.inl h
    · exact Or.inr (by decide)
    · exact Or.inr (List.mem_cons_of_mem _ (List.mem_cons_of_mem _ h))
  by_cases hx : x.negative
  · rw [text_of_negative hx] at h
    rcases List.mem_cons.mp h with rfl | h
    · exact Or.inr (List.mem_cons_self ..)
    · exact hmagnitude h
  · rw [text_of_not_negative hx] at h
    exact hmagnitude h

theorem text_ne_nil (x : Number F) : x.text ≠ [] :=
  List.append_ne_nil_of_right_ne_nil _ x.magnitudeText_ne_nil

end Number

end ArithTree
