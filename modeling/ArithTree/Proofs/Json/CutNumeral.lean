import ArithTree.Proofs.Json.Range

/-!
# Numerals that are cut short

A prefix of a numeral is a numeral as well, or it ends where a digit has to follow. If it is a numeral, then
of a value that does not exceed that of the whole one, provided that the digits in front of an exponent are
less than ten. Numerals are written that way, so that no prefix of one is out of range.

* `Numeral.unclosed_of_isPrefix`: what becomes of a prefix of a numeral.
* `Numeral.value_le_of_cut`: the value of a numeral that was cut short.
* `Number.unfinished_readLiteral`: a prefix of a literal that is written is read to its end, or missing
  something.
-/

namespace ArithTree

variable {F : Format}

namespace Json

/-- The reader misses something behind the text, or reads the text to its end. -/
def Unfinished {α : Type} (read : Reader α) (p : List Char) : Prop :=
  read p = .error .truncated ∨ ∃ a, read p = .ok (a, [])

namespace Numeral

variable {p whole fractionText fraction exponentText : List Char} {exponent : Option Int}
  {negative : Bool}

/-! ## Prefixes of the parts -/

theorem Digits.of_isPrefix {ds : List Char} (h : Digits ds) (hp : p <+: ds) : p = [] ∨ Digits p := by
  by_cases hnil : p = []
  · exact Or.inl hnil
  · exact Or.inr ⟨hnil, fun c hc => h.2 c (hp.subset hc)⟩

theorem SpellsWhole.of_isPrefix (h : SpellsWhole whole) (hp : p <+: whole) :
    p = [] ∨ SpellsWhole p := by
  cases h with
  | zero =>
    rcases prefix_singleton_cases hp with rfl | rfl
    · exact Or.inl rfl
    · exact Or.inr .zero
  | digits h hzero =>
    rcases h.of_isPrefix hp with rfl | hdigits
    · exact Or.inl rfl
    · refine Or.inr (.digits hdigits fun hhead => hzero ?_)
      obtain ⟨tail, rfl⟩ := List.head?_eq_some_iff.mp hhead
      obtain ⟨rest, rfl⟩ := hp
      rfl

/-- In front of the digits of an exponent there is nothing to read behind the sign. -/
theorem readSign_isPrefix {sign s : List Char} (h : SpellsSign sign negative) (hs : s <+: sign) :
    (readSign s).2 = [] := by
  cases h with
  | none =>
    rw [List.prefix_nil.mp hs]
    rfl
  | plus => rcases prefix_singleton_cases hs with rfl | rfl <;> rfl
  | minus => rcases prefix_singleton_cases hs with rfl | rfl <;> rfl

/-! ## Prefixes of numerals -/

/-- Behind a sign the parts are read one after the other. -/
theorem read_signText_append (negative : Bool) (hwhole : SpellsWhole whole) (s : List Char) :
    read (signText negative ++ (whole ++ s)) = (do
      let (whole, s) ← readWhole (whole ++ s)
      let (fraction, s) ← readFraction s
      let (exponent, s) ← readExponent s
      return (ofParts negative whole fraction exponent, s)) := by
  obtain ⟨c, tail, hwhole, hc⟩ := hwhole.head_isDigit
  obtain ⟨hsign, hdrop⟩ :=
    head_signText_append negative (congrArg (· ++ s) hwhole : _ = c :: (tail ++ s)) hc
  unfold read
  rw [hsign]
  dsimp only
  rw [hdrop]
  rfl

/-- What is left of the parts of a numeral that was cut short and still is one. -/
inductive Cut (whole fraction : List Char) (exponent : Option Int) :
    List Char → List Char → Option Int → Prop
  | whole {w : List Char} (hw : w <+: whole) : Cut whole fraction exponent w [] none
  | fraction {f : List Char} (hf : f <+: fraction) : Cut whole fraction exponent whole f none
  | exponent {negative : Bool} {ds e : List Char} (hexponent : exponent = some (signed negative ds))
      (he : e <+: ds) : Cut whole fraction exponent whole fraction (some (signed negative e))

theorem starts_signText_append (negative : Bool) (hwhole : SpellsWhole whole) (s : List Char) :
    starts (signText negative ++ (whole ++ s)) := by
  cases negative with
  | true => rfl
  | false =>
    obtain ⟨c, tail, rfl, hc⟩ := hwhole.head_isDigit
    exact Bool.or_eq_true_iff.mpr (Or.inr hc)

/-- A numeral, or the beginning of one that lacks a digit. -/
def Unclosed (negative : Bool) (whole fraction : List Char) (exponent : Option Int) (p : List Char) :
    Prop :=
  (starts p ∧ read p = .error .truncated) ∨
    ∃ w f e, Spells p (ofParts negative w f e) ∧ Cut whole fraction exponent w f e

/-- Parts that are left over and complete make a numeral. -/
theorem Unclosed.spelled {w f f' e' : List Char} {e : Option Int} (hw : SpellsWhole w)
    (hf : SpellsFraction f' f) (he : SpellsExponent e' e) (hcut : Cut whole fraction exponent w f e) :
    Unclosed negative whole fraction exponent (signText negative ++ (w ++ (f' ++ e'))) := by
  have hspells := Spells.parts negative hw hf he
  rw [List.append_assoc, List.append_assoc] at hspells
  exact Or.inr ⟨w, f, e, hspells, hcut⟩

/-- Up to its first digit an exponent lacks one. -/
theorem read_exponent_missing (negative : Bool) {c : Char} {s : List Char}
    (hwhole : SpellsWhole whole) (hfraction : SpellsFraction fractionText fraction)
    (hc : c = 'e' ∨ c = 'E') (hnothing : (readSign s).2 = []) :
    read (signText negative ++ (whole ++ (fractionText ++ c :: s))) = .error .truncated := by
  have hbehind : ∀ d ∈ (c :: s).head?, d.isDigit = false ∧ d ≠ '.' := by
    intro d hd
    obtain rfl := Option.some.inj hd
    rcases hc with rfl | rfl <;> decide
  have hdigit : ∀ d ∈ (fractionText ++ c :: s).head?, d.isDigit = false := by
    intro d hd
    cases hfraction with
    | none => exact (hbehind d hd).1
    | digits h =>
      obtain rfl := Option.some.inj hd
      rfl
  have hread : readExponent (c :: s) = .error .truncated := by
    have hdigits : readDigits (readSign s).2 = .error .truncated :=
      (congrArg readDigits hnothing).trans rfl
    exact (if_pos hc).trans (bind_eq_error_iff.mpr (Or.inl hdigits))
  rw [read_signText_append negative hwhole, readWhole_append hwhole hdigit]
  refine bind_eq_error_iff.mpr (Or.inr ⟨_, rfl, ?_⟩)
  refine bind_eq_error_iff.mpr (Or.inr ⟨_, readFraction_append hfraction hbehind, ?_⟩)
  exact bind_eq_error_iff.mpr (Or.inl hread)

/-- Cut behind the fraction. -/
theorem unclosed_exponent (negative : Bool) (hwhole : SpellsWhole whole)
    (hfraction : SpellsFraction fractionText fraction)
    (hexponent : SpellsExponent exponentText exponent) (hp : p <+: exponentText) :
    Unclosed negative whole fraction exponent
      (signText negative ++ (whole ++ (fractionText ++ p))) := by
  have hnone : Unclosed negative whole fraction exponent
      (signText negative ++ (whole ++ (fractionText ++ []))) :=
    .spelled hwhole hfraction .none (.fraction (List.prefix_refl _))
  cases hexponent with
  | none => exact List.prefix_nil.mp hp ▸ hnone
  | @digits c sign ds expNegative hc hsign hds =>
    rcases List.prefix_cons_iff.mp hp with rfl | ⟨q, rfl, hq⟩
    · exact hnone
    have hmissing (hnothing : (readSign q).2 = []) : Unclosed negative whole fraction
        (some (signed expNegative ds)) (signText negative ++ (whole ++ (fractionText ++ c :: q))) :=
      Or.inl ⟨starts_signText_append negative hwhole _,
        read_exponent_missing negative hwhole hfraction hc hnothing⟩
    rcases prefix_append_cases hq with hq | ⟨d, rfl, hd⟩
    · exact hmissing (readSign_isPrefix hsign hq)
    · rcases hds.of_isPrefix hd with rfl | hdigits
      · refine hmissing ?_
        rw [List.append_nil]
        exact readSign_isPrefix hsign (List.prefix_refl _)
      · exact .spelled hwhole hfraction (.digits hc hsign hdigits) (.exponent rfl hd)

/-- Cut behind the whole part. -/
theorem unclosed_fraction (negative : Bool) (hwhole : SpellsWhole whole)
    (hfraction : SpellsFraction fractionText fraction)
    (hexponent : SpellsExponent exponentText exponent) (hp : p <+: fractionText ++ exponentText) :
    Unclosed negative whole fraction exponent (signText negative ++ (whole ++ p)) := by
  rcases prefix_append_cases hp with hp | ⟨q, rfl, hq⟩
  · have hnone : Unclosed negative whole fraction exponent (signText negative ++ (whole ++ [])) :=
      .spelled hwhole .none .none (.whole (List.prefix_refl _))
    cases hfraction with
    | none => exact List.prefix_nil.mp hp ▸ hnone
    | digits hds =>
      rcases List.prefix_cons_iff.mp hp with rfl | ⟨q, rfl, hq⟩
      · exact hnone
      rcases hds.of_isPrefix hq with rfl | hdigits
      · refine Or.inl ⟨starts_signText_append negative hwhole _, ?_⟩
        have hdigit : ∀ c ∈ ['.'].head?, c.isDigit = false := by
          intro c hc
          obtain rfl := Option.some.inj hc
          rfl
        rw [read_signText_append negative hwhole, readWhole_append hwhole hdigit]
        rfl
      · have hspelled : Unclosed negative whole fraction exponent
            (signText negative ++ (whole ++ ('.' :: q ++ []))) :=
          .spelled hwhole (.digits hdigits) .none (.fraction hq)
        rwa [List.append_nil] at hspelled
  · exact unclosed_exponent negative hwhole hfraction hexponent hq

/-- **A prefix of a numeral is nothing, or lacks a digit, or is a numeral itself.** -/
theorem unclosed_of_isPrefix (negative : Bool) (hwhole : SpellsWhole whole)
    (hfraction : SpellsFraction fractionText fraction)
    (hexponent : SpellsExponent exponentText exponent)
    (hp : p <+: signText negative ++ whole ++ fractionText ++ exponentText) :
    p = [] ∨ Unclosed negative whole fraction exponent p := by
  have hsign {s : List Char} (hs : s <+: signText negative) :
      s = [] ∨ Unclosed negative whole fraction exponent s := by
    cases negative with
    | true =>
      rcases prefix_singleton_cases hs with rfl | rfl
      · exact Or.inl rfl
      · exact Or.inr (Or.inl ⟨rfl, rfl⟩)
    | false => exact Or.inl (List.prefix_nil.mp hs)
  rw [List.append_assoc, List.append_assoc] at hp
  rcases prefix_append_cases hp with hp | ⟨q, rfl, hq⟩
  · exact hsign hp
  · rcases prefix_append_cases hq with hq | ⟨r, rfl, hr⟩
    · rcases hwhole.of_isPrefix hq with rfl | hdigits
      · rw [List.append_nil]
        exact hsign (List.prefix_refl _)
      · have hspelled : Unclosed negative whole fraction exponent
            (signText negative ++ (q ++ ([] ++ []))) := .spelled hdigits .none .none (.whole hq)
        rw [List.append_nil, List.append_nil] at hspelled
        exact Or.inr hspelled
    · exact Or.inr (unclosed_fraction negative hwhole hfraction hexponent hr)

/-! ## Values of numerals that were cut short -/

/-- Digits in front of others count for no more than with them. -/
theorem mul_ofDigitChars_le (ds g : List Char) :
    10 ^ g.length * Nat.ofDigitChars 10 ds 0 ≤ Nat.ofDigitChars 10 (ds ++ g) 0 := by
  rw [Nat.ofDigitChars_append, Nat.ofDigitChars_eq_ofDigitChars_zero (l := g)]
  exact Nat.le_add_right ..

theorem ofDigitChars_le_of_isPrefix {ds : List Char} (hp : p <+: ds) :
    Nat.ofDigitChars 10 p 0 ≤ Nat.ofDigitChars 10 ds 0 := by
  obtain ⟨g, rfl⟩ := hp
  exact Nat.le_trans (Nat.le_mul_of_pos_left _ (Nat.pow_pos (by decide))) (mul_ofDigitChars_le p g)

/-- The value of the digits around a point. -/
def pointValue (whole fraction : List Char) : ℚ :=
  Nat.ofDigitChars 10 (whole ++ fraction) 0 * 10 ^ (-(fraction.length : Int))

theorem value_ofParts_eq (negative : Bool) (whole fraction : List Char) (exponent : Option Int) :
    (ofParts negative whole fraction exponent).value
      = pointValue whole fraction * 10 ^ exponent.getD 0 := by
  rw [value_ofParts, pointValue, mul_assoc, ← zpow_add₀ (by norm_num), Int.add_comm]
  rfl

theorem pointValue_nonneg (whole fraction : List Char) : 0 ≤ pointValue whole fraction :=
  mul_nonneg (Nat.cast_nonneg _) (zpow_nonneg (by norm_num) _)

/-- Without its last decimals a number is no larger. -/
theorem pointValue_le_of_isPrefix (whole : List Char) (hp : p <+: fraction) :
    pointValue whole p ≤ pointValue whole fraction := by
  obtain ⟨g, rfl⟩ := hp
  have hdigits : (10 : ℚ) ^ g.length * Nat.ofDigitChars 10 (whole ++ p) 0
      ≤ Nat.ofDigitChars 10 (whole ++ (p ++ g)) 0 := by
    rw [← List.append_assoc]
    exact_mod_cast mul_ofDigitChars_le (whole ++ p) g
  have hpos : (0 : ℚ) ≤ 10 ^ (-((p ++ g).length : Int)) := zpow_nonneg (by norm_num) _
  have hpow : (10 : ℚ) ^ (-(p.length : Int))
      = 10 ^ g.length * 10 ^ (-((p ++ g).length : Int)) := by
    rw [← zpow_natCast (10 : ℚ) g.length, ← zpow_add₀ (by norm_num), List.length_append]
    congr 1
    omega
  unfold pointValue
  rw [hpow, ← mul_assoc, mul_comm (_ : ℚ) (10 ^ g.length)]
  exact mul_le_mul_of_nonneg_right hdigits hpos

theorem ofDigitChars_lt {ds : List Char} (h : ∀ c ∈ ds, c.isDigit) :
    Nat.ofDigitChars 10 ds 0 < 10 ^ ds.length := by
  induction ds with
  | nil => exact Nat.one_pos
  | cons c ds ih =>
    have hdigit : c.toNat ≤ 57 := by
      have hc := h c (List.mem_cons_self ..)
      unfold Char.isDigit at hc
      rw [Bool.and_eq_true, decide_eq_true_eq, decide_eq_true_eq] at hc
      exact UInt32.le_iff_toNat_le.mp hc.2
    have hrest := ih fun d hd => h d (List.mem_cons_of_mem _ hd)
    have hfirst : 10 ^ ds.length * (c.toNat - 48) ≤ 10 ^ ds.length * 9 :=
      Nat.mul_le_mul_left _ (by omega)
    rw [Nat.ofDigitChars_cons, Nat.ofDigitChars_eq_ofDigitChars_zero, Nat.mul_zero, Nat.zero_add,
      List.length_cons, Nat.pow_succ]
    show 10 ^ ds.length * (c.toNat - 48) + _ < _
    omega

/-- With a single digit in front of the point a number is less than ten. -/
theorem pointValue_le_ten (hwhole : SpellsWhole whole) (hlength : whole.length = 1)
    (hfraction : SpellsFraction fractionText fraction) : pointValue whole fraction ≤ 10 := by
  have hdigits : ∀ c ∈ whole ++ fraction, c.isDigit := by
    intro c hc
    rcases List.mem_append.mp hc with hc | hc
    · cases hwhole with
      | zero => exact List.mem_singleton.mp hc ▸ rfl
      | digits h => exact h.2 c hc
    · cases hfraction with
      | none => cases hc
      | digits h => exact h.2 c hc
  have hlt := ofDigitChars_lt hdigits
  rw [List.length_append, hlength, Nat.pow_add, Nat.pow_one] at hlt
  have hle : (Nat.ofDigitChars 10 (whole ++ fraction) 0 : ℚ) ≤ 10 * 10 ^ fraction.length := by
    exact_mod_cast hlt.le
  have hpos : (0 : ℚ) < 10 ^ fraction.length := by positivity
  rwa [pointValue, zpow_neg, zpow_natCast, ← div_eq_mul_inv, div_le_iff₀ hpos]

/-- **A numeral that was cut short is not larger than the whole one**, or not larger than ten. -/
theorem value_le_of_cut {w f : List Char} {e : Option Int} (hwhole : SpellsWhole whole)
    (hfraction : SpellsFraction fractionText fraction) (hnormal : exponent = none ∨ whole.length = 1)
    (h : Cut whole fraction exponent w f e) :
    (ofParts negative w f e).value ≤ max (ofParts negative whole fraction exponent).value 10 := by
  have hpoint : pointValue whole fraction
      ≤ max (ofParts negative whole fraction exponent).value 10 := by
    rcases hnormal with rfl | hlength
    · rw [value_ofParts_eq, Option.getD_none, zpow_zero, mul_one]
      exact le_max_left _ _
    · exact (pointValue_le_ten hwhole hlength hfraction).trans (le_max_right _ _)
  cases h with
  | whole hw =>
    refine le_trans ?_ hpoint
    rw [value_ofParts_eq, Option.getD_none, zpow_zero, mul_one]
    refine le_trans ?_ (pointValue_le_of_isPrefix whole List.nil_prefix)
    have hdigits : (Nat.ofDigitChars 10 w 0 : ℚ) ≤ Nat.ofDigitChars 10 whole 0 := by
      exact_mod_cast ofDigitChars_le_of_isPrefix hw
    simpa [pointValue] using hdigits
  | fraction hf =>
    refine le_trans ?_ hpoint
    rw [value_ofParts_eq, Option.getD_none, zpow_zero, mul_one]
    exact pointValue_le_of_isPrefix whole hf
  | @exponent expNegative ds e hexponent he =>
    have hnonneg := pointValue_nonneg whole fraction
    rw [value_ofParts_eq, Option.getD_some]
    cases expNegative with
    | true =>
      refine le_trans (mul_le_of_le_one_right hnonneg ?_) hpoint
      refine zpow_le_one_of_nonpos₀ (by norm_num) ?_
      exact Int.neg_nonpos_of_nonneg (Int.natCast_nonneg _)
    | false =>
      refine le_trans ?_ (le_max_left _ _)
      rw [value_ofParts_eq, hexponent, Option.getD_some]
      refine mul_le_mul_of_nonneg_left (zpow_le_zpow_right₀ (by norm_num) ?_) hnonneg
      exact Int.ofNat_le.mpr (ofDigitChars_le_of_isPrefix he)

end Numeral

end Json

namespace Number

open Json

variable {x : Number F} {p : List Char}

theorem ten_lt_overflow (F : Format) : (10 : ℚ) < F.overflow := by
  have hlt : 10 < F.overflow := Nat.lt_trans (by decide) F.two_pow_lt_overflow
  exact_mod_cast hlt

/-- Nothing is skipped in front of a numeral. -/
theorem skipBlanks_of_starts (h : Numeral.starts p) : skipBlanks p = p := by
  cases p with
  | nil => rfl
  | cons c p =>
    refine skipBlanks_cons (isBlank_of_isTextChar ?_) p
    unfold Numeral.starts at h
    rcases (Bool.or_eq_true ..).mp h with hc | hc
    · exact beq_iff_eq.mp hc ▸ rfl
    · exact Numeral.isTextChar_of_isDigit hc

/-- **A prefix of a literal that is written is read to its end, or it lacks something.** -/
theorem unfinished_readLiteral (hx : x.isInfinite = false) (hp : p <+: x.jsonText) :
    Unfinished (readLiteral F) p := by
  obtain ⟨n, hspells, -⟩ := exists_standsFor_jsonText hx
  have hvalue : n.value < F.overflow := by
    obtain ⟨n', hspells', hfinite, -⟩ := exists_spells_jsonText hx
    obtain rfl := hspells.spells.unique hspells'
    exact not_le.mp (mt (hspells'.isInfinite_round_iff F).mpr (Bool.eq_false_iff.mp hfinite))
  generalize x.jsonText = text at hspells hp
  obtain ⟨negative, hwhole, hfraction, hexponent, hnormal⟩ := hspells
  rcases Numeral.unclosed_of_isPrefix negative hwhole hfraction hexponent hp with
    rfl | ⟨hstarts, hread⟩ | ⟨w, f, e, hspells', hcut⟩
  · exact Or.inl rfl
  · left
    unfold readLiteral
    rw [skipBlanks_of_starts hstarts]
    exact (if_pos hstarts).trans (bind_eq_error_iff.mpr (Or.inl hread))
  · have hle := (Numeral.value_le_of_cut hwhole hfraction hnormal hcut).trans_lt
      (max_lt hvalue (ten_lt_overflow F))
    have hfinite := Bool.eq_false_iff.mpr (mt (hspells'.isInfinite_round_iff F).mp (not_le.mpr hle))
    have hends : Numeral.Ends [] := nofun
    have hread := readLiteral_append blank_nil hspells' ⟨hfinite, rfl⟩ hends
    rw [List.nil_append, List.append_nil] at hread
    exact Or.inr ⟨_, hread⟩

end Number

end ArithTree
