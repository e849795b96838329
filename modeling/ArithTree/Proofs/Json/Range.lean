import Mathlib.Tactic.NormNum
import ArithTree.Proofs.Decimal.Halfway
import ArithTree.Proofs.Json.RoundTrip

/-!
# The range of numerals

A numeral is out of range if it would be read as an infinity, and then no text that has it in the place
of a literal is a tree. Which numerals these are is said here by their exact values: those that reach
halfway from the largest finite magnitude to the next power of two. A numeral that exceeds the largest
finite magnitude by less is read as the largest finite number.

* `Numeral.Spells.isInfinite_round_iff`: the numerals out of range, whichever way they are read: as integers,
  by way of another format, or with only their first digits.
* `Tree.ofJson_range`: what is read has finite literals only, so that it is written and read back.
* `Tree.ofJson_not_refused_above_largest`: exceeding the largest finite magnitude is not enough.
-/

namespace ArithTree

variable {F : Format}

/-! ## Integers of 64 bits -/

theorem Format.two_pow_lt_largest (F : Format) : 2 ^ 64 < F.largest := by
  cases F <;> decide +kernel

theorem Format.two_pow_lt_overflow (F : Format) : 2 ^ 64 < F.overflow :=
  F.two_pow_lt_largest.trans F.largest_lt_overflow

namespace Number

variable {negative : Bool} {d : Decimal}

theorem not_isInfinite_ofInt {i : Int} (hi : i.natAbs ≤ 2 ^ 64) : ¬ (ofInt F i).isInfinite := by
  have hnearest := isNearest_ofInt F i
  rw [← withSign_abs_intCast] at hnearest
  have habs : |(i : ℚ)| ≤ 2 ^ 64 := by
    rw [← Int.cast_abs, Int.abs_eq_natAbs]
    exact_mod_cast hi
  rw [IsNearest.isInfinite_iff hnearest, not_le]
  exact habs.trans_lt (by exact_mod_cast F.two_pow_lt_overflow)

/-- What does not exceed an integer of 64 bits does not do so in `binary64` either. -/
theorem magnitude_ofDecimal_le (hd : d.value ≤ 2 ^ 64) :
    (ofDecimal .binary64 negative d).magnitude ≤ 2 ^ 64 := by
  have hunits : Format.units .binary64 (1087 * Format.hiddenBit .binary64)
      = 2 ^ 64 * Format.unitsPerOne .binary64 := by decide +kernel
  have hmagnitude : Format.magnitude .binary64 (1087 * Format.hiddenBit .binary64) = 2 ^ 64 := by
    rw [Format.magnitude, hunits]
    push_cast
    exact mul_div_cancel_right₀ _ (Format.unitsPerOne_cast_pos _).ne'
  rw [← hmagnitude] at hd ⊢
  exact (isNearest_ofDecimal ..).magnitude_le hd

/-- By way of `binary64` no integer of 64 bits becomes infinite. -/
theorem not_isInfinite_convert_ofDecimal (F : Format) (hd : d.value ≤ 2 ^ 64) :
    ¬ ((ofDecimal .binary64 negative d).convert F).isInfinite := by
  have hoverflow (G : Format) : (2 : ℚ) ^ 64 < G.overflow := by exact_mod_cast G.two_pow_lt_overflow
  have hfinite : (ofDecimal .binary64 negative d).isInfinite = false := by
    rw [← Bool.not_eq_true, (isNearest_ofDecimal ..).isInfinite_iff, not_le]
    exact hd.trans_lt (hoverflow _)
  rw [(isNearest_convert hfinite).isInfinite_iff, not_le]
  exact (magnitude_ofDecimal_le hd).trans_lt (hoverflow F)

end Number

namespace Json

/-! ## Numerals out of range -/

namespace Numeral

variable {text : List Char} {n : Numeral}

/-- Without a fraction and an exponent the digits are all there is. -/
theorem Spells.value_of_plain (hn : n.Spells text) (hplain : n.plain) :
    n.value = n.coefficient := by
  obtain ⟨negative, hwhole, hfraction, hexponent⟩ := hn
  obtain ⟨hnil, hnone⟩ := (Bool.and_eq_true ..).mp hplain
  rw [List.isEmpty_iff] at hnil
  rw [Option.isNone_iff_eq_none] at hnone
  subst hnil hnone
  simp [value, magnitude, Decimal.value, ofParts, dropTrailingZeros]

/-- Integers that are kept have 64 bits, and the sign of the numeral. -/
theorem natAbs_of_integer? {i : Int} (h : n.integer? = some i) :
    n.plain ∧ i.natAbs = n.coefficient ∧ n.coefficient ≤ 2 ^ 64 ∧ (i < 0 ↔ n.negative) := by
  unfold integer? at h
  split at h
  · cases h
  · rename_i hplain
    rw [Bool.not_eq_true', Bool.not_eq_false] at hplain
    refine ⟨hplain, ?_⟩
    split at h
    · rename_i hnegative
      split at h
      · rename_i hbits
        have hle : n.coefficient ≤ 2 ^ 63 := hbits.2
        obtain rfl := Option.some.inj h
        exact ⟨by omega, by omega, iff_of_true (by omega) hnegative⟩
      · cases h
    · rename_i hnegative
      split at h
      · rename_i hbits
        have hlt : n.coefficient < 2 ^ 64 := hbits
        obtain rfl := Option.some.inj h
        exact ⟨by omega, by omega, iff_of_false (by omega) hnegative⟩
      · cases h

/-- A numeral is read as a finite number because it has 64 bits, or its first digits are rounded. -/
theorem Spells.round_cases (hn : n.Spells text) (F : Format) :
    (n.value ≤ 2 ^ 64 ∧ ¬ (n.round F).isInfinite) ∨
      n.round F = .ofDecimal F n.negative (n.magnitude.abridge (digitsRead F)) := by
  unfold round
  split
  · rename_i i hi
    obtain ⟨hplain, habs, hle, -⟩ := natAbs_of_integer? hi
    refine Or.inl ⟨?_, Number.not_isInfinite_ofInt (habs ▸ hle)⟩
    rw [hn.value_of_plain hplain]
    exact_mod_cast hle
  · split
    · rename_i hplain
      have hvalue : n.value ≤ 2 ^ 64 := by
        rw [hn.value_of_plain hplain.1]
        exact_mod_cast Nat.le_of_lt hplain.2.2
      exact Or.inl ⟨hvalue, Number.not_isInfinite_convert_ofDecimal F hvalue⟩
    · exact Or.inr rfl

/-- **The numerals out of range** are those whose values reach the bound of the format. -/
theorem Spells.isInfinite_round_iff (hn : n.Spells text) (F : Format) :
    (n.round F).isInfinite ↔ (F.overflow : ℚ) ≤ n.value := by
  obtain ⟨hvalue, hfinite⟩ | hround := hn.round_cases F
  · have hlt : (2 : ℚ) ^ 64 < F.overflow := by exact_mod_cast F.two_pow_lt_overflow
    exact iff_of_false hfinite (not_le.mpr (hvalue.trans_lt hlt))
  · rw [hround, (Number.isNearest_ofDecimal ..).isInfinite_iff,
      Decimal.natCast_le_abridge_iff (digitsRead_pos F) (overflow_lt_digitsRead F)]
    rfl

/-- A numeral in range that reaches the largest finite magnitude is read as the largest number. -/
theorem Spells.round_eq_largest (hn : n.Spells text) (hle : (F.largest : ℚ) ≤ n.value)
    (hlt : n.value < F.overflow) : n.round F = .largest n.negative := by
  have hoverflow := overflow_lt_digitsRead F
  have hlargest := F.largest_lt_overflow.trans hoverflow
  obtain ⟨hvalue, -⟩ | hround := hn.round_cases F
  · have hbits : (2 : ℚ) ^ 64 < F.largest := by exact_mod_cast F.two_pow_lt_largest
    exact absurd (hle.trans hvalue) (not_le.mpr hbits)
  · have hreaches {T : Nat} (hT : T < 10 ^ digitsRead F) :=
      Decimal.natCast_le_abridge_iff (digitsRead_pos F) hT n.magnitude
    have hlower := (hreaches hlargest).mpr hle
    have hupper := not_le.mp (mt (hreaches hoverflow).mp (not_le.mpr hlt))
    have heq := (Number.isNearest_ofDecimal F n.negative _).eq_largest hlower hupper
    rwa [Number.negative_ofDecimal, ← hround] at heq

end Numeral

/-! ## Texts of trees and their literals -/

variable {L L' : Numeral → Number F → Prop} {s : List Char} {t : Tree F}

/-- A text derives a tree by what is known of its numerals. -/
theorem Derives.imp (hL : ∀ {text n x}, Numeral.Spells text n → L n x → L' n x)
    (h : Derives L s t) : Derives L' s t := by
  induction h with
  | num hn hx hentry => exact .num hn (hL hn hx) hentry
  | binary op _ _ hcontent hentry ihl ihr => exact .binary op ihl ihr hcontent hentry
  | neg _ hentry ih => exact .neg ih hentry

theorem isTree_congr (hL : ∀ {text n x}, Numeral.Spells text n → (L n x ↔ L' n x)) :
    IsTree L s t ↔ IsTree L' s t := by
  constructor
  · rintro ⟨core, hcore, hs⟩
    exact ⟨core, hcore.imp fun hn => (hL hn).mp, hs⟩
  · rintro ⟨core, hcore, hs⟩
    exact ⟨core, hcore.imp fun hn => (hL hn).mpr, hs⟩

/-- The literals of a tree are what numerals of its text stand for. -/
theorem Derives.forall_literals {P : Number F → Prop} (hP : ∀ {n x}, L n x → P x)
    (h : Derives L s t) : ∀ x ∈ t.literals, P x := by
  induction h with
  | num _ hx => exact fun y hy => List.mem_singleton.mp hy ▸ hP hx
  | binary op _ _ _ _ ihl ihr =>
    exact fun y hy => (List.mem_append.mp hy).elim (ihl y) (ihr y)
  | neg _ _ ih => exact ih

/-- What is read fits: it has finite literals only. -/
theorem fits_of_readText (h : readText F s = .ok t) : t.Fits maxOpenBrackets := by
  obtain ⟨⟨core, hcore, hs⟩, hwithin⟩ := readText_eq_ok_iff.mp h
  have hfinite := hcore.forall_literals (P := fun x => x.isInfinite = false)
    fun {n x} (hx : n.Denotes F x) => hx.2 ▸ hx.1
  exact ⟨hfinite, (hcore.bracketsWithin_iff hs _).mp hwithin⟩

/-- The texts that are read, with the range of their numerals said by value. -/
theorem readText_eq_ok_iff_value : readText F s = .ok t ↔
    IsTree (fun n x => n.value < F.overflow ∧ n.round F = x) s t ∧
      BracketsWithin maxOpenBrackets s := by
  rw [readText_eq_ok_iff]
  refine and_congr_left fun _ => isTree_congr fun hn => and_congr_left fun _ => ?_
  rw [← Bool.not_eq_true, hn.isInfinite_round_iff, not_le]

section Leaf

variable {text : List Char} {n : Numeral}

/-- A leaf with a numeral in range. -/
theorem readText_leaf (hn : n.Spells text) (hfinite : (n.round F).isInfinite = false) :
    readText F (entry .num text) = .ok (.num (n.round F)) := by
  have hderives : Derives (Numeral.Denotes F) (entry .num text) (.num (n.round F)) :=
    .num hn ⟨hfinite, rfl⟩ (entry_written .num text)
  refine readText_eq_ok_iff.mpr ⟨⟨_, hderives, .refl _⟩, ?_⟩
  exact (hderives.bracketsWithin_iff (.refl _) _).mpr (show 1 ≤ 127 by decide)

/-- A leaf with a numeral out of range. -/
theorem readText_leaf_error (hn : n.Spells text) (hinfinite : (n.round F).isInfinite) :
    readText F (entry .num text) = .error .malformed := by
  have hends : Numeral.Ends ['\x7d'] := fun c hc => by
    obtain rfl := Option.some.inj hc
    rfl
  obtain ⟨hstarts, hskip⟩ := hn.starts ['\x7d']
  have hliteral : readLiteral F (text ++ ['\x7d']) = .error .malformed := by
    unfold readLiteral
    rw [hskip]
    have hread := Numeral.read_append hn hends
    have hnone : n.toNumber? F = none := if_pos hinfinite
    refine (if_pos hstarts).trans (bind_eq_error_iff.mpr (Or.inr ⟨_, hread, ?_⟩))
    simp only [hnone]
  have hcontent : readContent F 126 .num (text ++ ['\x7d']) = .error .malformed :=
    bind_eq_error_iff.mpr (Or.inl hliteral)
  have hread : readTree F 127 (entry .num text ++ []) = .error .malformed :=
    readTree_error hcontent
  rw [List.append_nil] at hread
  exact bind_eq_error_iff.mpr (Or.inl hread)

end Leaf

end Json

namespace Tree

/-- **What is read can be written and read again.** A tree that is read has finite literals only, so
that there is no `null` in its text, and its text is read as the same tree. For a text to be read, the
value of every numeral in the place of a literal has to be below the bound that lies halfway between
the largest finite magnitude and the next power of two. A leaf with a numeral that reaches the bound is
refused as malformed. One from the largest finite magnitude up to the bound is read as the largest finite
number of its sign. -/
theorem ofJson_range (F : Format) :
    (∀ (s : String) (t : Tree F), ofJson F s = .ok t →
      (∀ x ∈ t.literals, x.isInfinite = false) ∧ ¬ Json.nullText <:+: t.toJson.toList ∧
        ofJson F t.toJson = .ok t) ∧
    (∀ (s : String) (t : Tree F), ofJson F s = .ok t ↔
      Json.IsTree (fun n x => n.value < F.overflow ∧ n.round F = x) s.toList t ∧
        Json.BracketsWithin 127 s.toList) ∧
    ∀ (text : List Char) (n : Json.Numeral), n.Spells text →
      (ofJson F (String.ofList (Json.entry .num text)) = .error .malformed ↔
        F.overflow ≤ n.value) ∧
      (F.largest ≤ n.value → n.value < F.overflow →
        ofJson F (String.ofList (Json.entry .num text)) = .ok (.num (.largest n.negative))) := by
  refine ⟨fun s t h => ?_, fun s t => Json.readText_eq_ok_iff_value, fun text n hn => ?_⟩
  · have hfits := Json.fits_of_readText h
    unfold ofJson
    rw [toList_toJson]
    refine ⟨hfits.1, fun hnull => ?_, Json.readText_jsonText hfits⟩
    exact Json.n_notMem_tree hfits.1 (hnull.subset (List.mem_cons_self ..))
  · unfold ofJson
    rw [String.toList_ofList]
    refine ⟨?_, fun hle hlt => ?_⟩
    · rw [← hn.isInfinite_round_iff F]
      cases hinfinite : (n.round F).isInfinite with
      | true => exact iff_of_true (Json.readText_leaf_error hn hinfinite) rfl
      | false => simp [Json.readText_leaf hn hinfinite]
    · have hround := hn.round_eq_largest hle hlt
      have hfinite := mt (hn.isInfinite_round_iff F).mp (not_le.mpr hlt)
      rw [← hround]
      exact Json.readText_leaf hn (Bool.eq_false_iff.mpr hfinite)

/-! ## The text of the largest number -/

/-- How the largest finite number of `binary32` is written: rounded up, as the shortest decimal may
be. -/
def largestText : List Char := ['3', '.', '4', '0', '2', '8', '2', '3', '5', 'e', '+', '3', '8']

example : (Number.largest false : Number .binary32).jsonText = largestText := by decide +kernel

theorem spells_largestText : Json.Numeral.Spells largestText ⟨false, 34028235, 31, false⟩ := by
  have hwhole : Json.Numeral.Digits ['3'] := by simp [Json.Numeral.Digits]
  have hfraction : Json.Numeral.Digits ['4', '0', '2', '8', '2', '3', '5'] := by
    simp [Json.Numeral.Digits]
  have hexponent : Json.Numeral.Digits ['3', '8'] := by simp [Json.Numeral.Digits]
  exact .parts false (.digits hwhole (by decide)) (.digits hfraction)
    (.digits (Or.inl rfl) .plus hexponent)

theorem value_largestText :
    (Format.largest .binary32 : ℚ) < Json.Numeral.value ⟨false, 34028235, 31, false⟩ ∧
      Json.Numeral.value ⟨false, 34028235, 31, false⟩ < (Format.overflow .binary32 : ℚ) := by
  have hlargest : Format.largest .binary32 = 340282346638528859811704183484516925440 := by
    decide +kernel
  have hoverflow : Format.overflow .binary32 = 340282356779733661637539395458142568448 := by
    decide +kernel
  rw [hlargest, hoverflow]
  norm_num [Json.Numeral.value, Json.Numeral.magnitude, Decimal.value]

/-- The text exceeds the number that it is written for, and is read as this number. -/
theorem ofJson_range_largestText :
    let text := String.ofList (Json.entry .num largestText)
    let t : Tree .binary32 := .num (.largest false)
    ofJson .binary32 text = .ok t ∧ ¬ Json.nullText <:+: t.toJson.toList ∧
      ofJson .binary32 t.toJson = .ok t := by
  intro text t
  obtain ⟨hfinite, -, hleaf⟩ := ofJson_range .binary32
  obtain ⟨hlargest, hoverflow⟩ := value_largestText
  have hread := (hleaf _ _ spells_largestText).2 hlargest.le hoverflow
  exact ⟨hread, (hfinite text t hread).2⟩

/-- A numeral is not out of range as soon as it exceeds the largest finite magnitude. -/
theorem ofJson_not_refused_above_largest :
    ¬ ∀ (F : Format) (text : List Char) (n : Json.Numeral), n.Spells text →
      F.largest < n.value → ∃ e, ofJson F (String.ofList (Json.entry .num text)) = .error e := by
  intro h
  obtain ⟨hlargest, hoverflow⟩ := value_largestText
  obtain ⟨e, he⟩ := h .binary32 _ _ spells_largestText hlargest
  have hfinite := mt (spells_largestText.isInfinite_round_iff .binary32).mp (not_le.mpr hoverflow)
  unfold ofJson at he
  rw [String.toList_ofList,
    Json.readText_leaf spells_largestText (Bool.eq_false_iff.mpr hfinite)] at he
  cases he

end Tree

end ArithTree
