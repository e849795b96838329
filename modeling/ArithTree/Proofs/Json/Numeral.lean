import Mathlib.Data.List.TakeWhile
import ArithTree.Json.Numeral
import ArithTree.Proofs.Reading

/-!
# The grammar of numerals

A numeral is spelled by a sign, a whole part, a fraction and an exponent, all but the whole part
optional. `Numeral.Spells` says this of a text as a whole, where `Numeral.read` takes a text apart from
the left and stops at the first character that cannot go on.

* `Numeral.spells_of_read`: what is read is a spelling of the numeral that is given.
* `Numeral.read_append`: a spelling is read to its end, unless the text behind it goes on like a
  numeral.
-/

namespace ArithTree.Json.Numeral

variable {s rest ds : List Char}

/-! ## Spellings -/

/-- Digits, at least one. -/
def Digits (ds : List Char) : Prop := ds ≠ [] ∧ ∀ c ∈ ds, c.isDigit

/-- A whole part: a single zero, or digits that do not start with one. -/
inductive SpellsWhole : List Char → Prop
  | zero : SpellsWhole ['0']
  | digits {ds : List Char} (h : Digits ds) (hzero : '0' ∉ ds.head?) : SpellsWhole ds

/-- A fraction, and the digits behind its point. -/
inductive SpellsFraction : List Char → List Char → Prop
  | none : SpellsFraction [] []
  | digits {ds : List Char} (h : Digits ds) : SpellsFraction ('.' :: ds) ds

/-- A sign in front of an exponent, and whether it is negative. -/
inductive SpellsSign : List Char → Bool → Prop
  | none : SpellsSign [] false
  | plus : SpellsSign ['+'] false
  | minus : SpellsSign ['-'] true

/-- An integer of the given sign whose size has these digits. -/
def signed (negative : Bool) (digits : List Char) : Int :=
  let size : Int := Nat.ofDigitChars 10 digits 0
  if negative then -size else size

/-- An exponent, and its value if there is one. -/
inductive SpellsExponent : List Char → Option Int → Prop
  | none : SpellsExponent [] none
  | digits {e : Char} {sign ds : List Char} {negative : Bool} (he : e = 'e' ∨ e = 'E')
      (hsign : SpellsSign sign negative) (h : Digits ds) :
      SpellsExponent (e :: sign ++ ds) (some (signed negative ds))

/-- The numeral with these parts. -/
def ofParts (negative : Bool) (whole fraction : List Char) (exponent : Option Int) : Numeral :=
  let decimals := dropTrailingZeros fraction
  ⟨negative, Nat.ofDigitChars 10 (whole ++ decimals) 0, exponent.getD 0 - decimals.length,
    fraction.isEmpty && exponent.isNone⟩

/-- The sign of a numeral as it is spelled. -/
def signText (negative : Bool) : List Char := if negative then ['-'] else []

/-- The text spells the numeral. -/
inductive Spells : List Char → Numeral → Prop
  | parts (negative : Bool) {whole fractionText fraction exponentText : List Char}
      {exponent : Option Int} (hwhole : SpellsWhole whole)
      (hfraction : SpellsFraction fractionText fraction)
      (hexponent : SpellsExponent exponentText exponent) :
      Spells (signText negative ++ whole ++ fractionText ++ exponentText)
        (ofParts negative whole fraction exponent)

/-- The text spells the numeral, and an exponent stands only behind a whole part of a single digit. -/
inductive SpellsNormally : List Char → Numeral → Prop
  | parts (negative : Bool) {whole fractionText fraction exponentText : List Char}
      {exponent : Option Int} (hwhole : SpellsWhole whole)
      (hfraction : SpellsFraction fractionText fraction)
      (hexponent : SpellsExponent exponentText exponent)
      (hnormal : exponent = none ∨ whole.length = 1) :
      SpellsNormally (signText negative ++ whole ++ fractionText ++ exponentText)
        (ofParts negative whole fraction exponent)

theorem SpellsNormally.spells {text : List Char} {n : Numeral} (h : SpellsNormally text n) :
    Spells text n := by
  obtain ⟨negative, hwhole, hfraction, hexponent, -⟩ := h
  exact .parts negative hwhole hfraction hexponent

/-- The characters of numerals. -/
def isTextChar (c : Char) : Bool := c.isDigit || c ∈ ['-', '+', '.', 'e', 'E']

theorem isTextChar_of_isDigit {c : Char} (h : c.isDigit) : isTextChar c :=
  Bool.or_eq_true_iff.mpr (Or.inl h)

theorem isTextChar_of_mem {text : List Char} {n : Numeral} (h : Spells text n) {c : Char}
    (hc : c ∈ text) : isTextChar c := by
  obtain ⟨negative, hwhole, hfraction, hexponent⟩ := h
  rcases List.mem_append.mp hc with hc | hc
  · rcases List.mem_append.mp hc with hc | hc
    · rcases List.mem_append.mp hc with hc | hc
      · cases negative with
        | true => exact List.mem_singleton.mp hc ▸ rfl
        | false => cases hc
      · cases hwhole with
        | zero => exact List.mem_singleton.mp hc ▸ rfl
        | digits h => exact isTextChar_of_isDigit (h.2 c hc)
    · cases hfraction with
      | none => cases hc
      | digits h =>
        rcases List.mem_cons.mp hc with rfl | hc
        · rfl
        · exact isTextChar_of_isDigit (h.2 c hc)
  · cases hexponent with
    | none => cases hc
    | digits he hsign h =>
      rcases List.mem_append.mp hc with hc | hc
      · rcases List.mem_cons.mp hc with rfl | hc
        · rcases he with rfl | rfl <;> rfl
        · cases hsign with
          | none => cases hc
          | plus => exact List.mem_singleton.mp hc ▸ rfl
          | minus => exact List.mem_singleton.mp hc ▸ rfl
      · exact isTextChar_of_isDigit (h.2 c hc)

/-! ## What is read is spelled -/

theorem digits_of_readDigits (h : readDigits s = .ok (ds, rest)) : Digits ds ∧ s = ds ++ rest := by
  unfold readDigits at h
  split at h
  · cases h
  · cases h
  · rename_i hnil _
    cases h
    refine ⟨⟨fun hds => ?_, fun c hc => List.mem_takeWhile_imp hc⟩,
      List.takeWhile_append_dropWhile.symm⟩
    cases hrest : s.dropWhile Char.isDigit with
    | nil => exact hnil hds hrest
    | cons c rest => simp_all

theorem spellsWhole_of_readWhole (h : readWhole s = .ok (ds, rest)) :
    SpellsWhole ds ∧ s = ds ++ rest := by
  unfold readWhole at h
  split at h
  · split at h
    · cases h
    · cases h
      exact ⟨.zero, rfl⟩
  · rename_i hzero
    obtain ⟨hds, rfl⟩ := digits_of_readDigits h
    refine ⟨.digits hds fun hhead => ?_, rfl⟩
    obtain ⟨tail, rfl⟩ := List.head?_eq_some_iff.mp hhead
    exact hzero _ rfl

theorem spellsFraction_of_readFraction (h : readFraction s = .ok (ds, rest)) :
    ∃ text, SpellsFraction text ds ∧ s = text ++ rest := by
  unfold readFraction at h
  split at h
  · obtain ⟨hds, rfl⟩ := digits_of_readDigits h
    exact ⟨'.' :: ds, .digits hds, rfl⟩
  · cases h
    exact ⟨[], .none, rfl⟩

theorem spellsSign_readSign (s : List Char) :
    ∃ sign, SpellsSign sign (readSign s).1 ∧ s = sign ++ (readSign s).2 := by
  unfold readSign
  split
  · exact ⟨_, .minus, rfl⟩
  · exact ⟨_, .plus, rfl⟩
  · exact ⟨_, .none, rfl⟩

theorem spellsExponent_of_readExponent {exponent : Option Int}
    (h : readExponent s = .ok (exponent, rest)) :
    ∃ text, SpellsExponent text exponent ∧ s = text ++ rest := by
  unfold readExponent at h
  split at h
  · cases h
    exact ⟨[], .none, rfl⟩
  · rename_i c tail
    split at h
    · rename_i he
      obtain ⟨sign, hsign, htail⟩ := spellsSign_readSign tail
      obtain ⟨⟨ds, rest'⟩, hdigits, hvalue⟩ := bind_eq_ok_iff.mp h
      obtain ⟨hds, hbehind⟩ := digits_of_readDigits hdigits
      cases hvalue
      have htext : tail = sign ++ ds ++ rest := by
        rw [List.append_assoc, ← hbehind]
        exact htail
      exact ⟨c :: sign ++ ds, .digits he hsign hds, congrArg (c :: ·) htext⟩
    · cases h
      exact ⟨[], .none, rfl⟩

/-- The sign in front of a text, and the text behind it. -/
theorem signText_append (s : List Char) :
    signText (s.head? == some '-') ++ (if s.head? == some '-' then s.drop 1 else s) = s := by
  by_cases hsign : s.head? = some '-'
  · obtain ⟨tail, rfl⟩ := List.head?_eq_some_iff.mp hsign
    rfl
  · have hnone : (s.head? == some '-') = false := beq_eq_false_iff_ne.mpr hsign
    rw [hnone]
    rfl

/-- **What is read is a spelling of the numeral that is given.** -/
theorem spells_of_read {n : Numeral} (h : read s = .ok (n, rest)) :
    ∃ text, Spells text n ∧ s = text ++ rest := by
  obtain ⟨⟨whole, s₁⟩, hw, h₁⟩ := bind_eq_ok_iff.mp h
  obtain ⟨⟨fraction, s₂⟩, hf, h₂⟩ := bind_eq_ok_iff.mp h₁
  obtain ⟨⟨exponent, s₃⟩, he, h₃⟩ := bind_eq_ok_iff.mp h₂
  cases h₃
  obtain ⟨hwhole, hs⟩ := spellsWhole_of_readWhole hw
  obtain ⟨fractionText, hfraction, hs₁⟩ := spellsFraction_of_readFraction hf
  obtain ⟨exponentText, hexponent, hs₂⟩ := spellsExponent_of_readExponent he
  refine ⟨_, .parts (s.head? == some '-') hwhole hfraction hexponent, ?_⟩
  rw [List.append_assoc, List.append_assoc, List.append_assoc, ← hs₂, ← hs₁, ← hs]
  exact (signText_append s).symm

/-! ## What is spelled is read -/

/-- A numeral that stops in front of this character could go on with it. -/
def continues (c : Char) : Bool := c.isDigit || c ∈ ['.', 'e', 'E']

/-- The rest of a text behind a numeral does not go on like one. -/
def Ends (rest : List Char) : Prop := ∀ c ∈ rest.head?, continues c = false

theorem not_isDigit_of_continues {c : Char} (h : continues c = false) : c.isDigit = false :=
  (Bool.or_eq_false_iff.mp h).1

theorem readWhole_append {whole : List Char} (h : SpellsWhole whole)
    (hrest : ∀ c ∈ rest.head?, c.isDigit = false) :
    readWhole (whole ++ rest) = .ok (whole, rest) := by
  cases h with
  | zero =>
    have hnone : ¬ rest.head?.any Char.isDigit := by
      rw [Option.any_eq_true]
      rintro ⟨c, hc, hdigit⟩
      rw [hrest c hc] at hdigit
      cases hdigit
    exact if_neg hnone
  | digits h hzero =>
    have hread := readDigits_append h.1 h.2 hrest
    obtain ⟨c, ds, rfl⟩ := List.exists_cons_of_ne_nil h.1
    unfold readWhole
    split
    · rename_i hc
      obtain rfl : c = '0' := (List.cons.inj hc).1
      exact absurd rfl hzero
    · exact hread

theorem readFraction_append {text fraction : List Char} (h : SpellsFraction text fraction)
    (hrest : ∀ c ∈ rest.head?, c.isDigit = false ∧ c ≠ '.') :
    readFraction (text ++ rest) = .ok (fraction, rest) := by
  cases h with
  | none =>
    rw [List.nil_append]
    unfold readFraction
    split
    · exact absurd rfl (hrest '.' rfl).2
    · rfl
  | digits h => exact readDigits_append h.1 h.2 fun c hc => (hrest c hc).1

theorem readSign_append {sign : List Char} {negative : Bool} (h : SpellsSign sign negative)
    (hds : Digits ds) : readSign (sign ++ (ds ++ rest)) = (negative, ds ++ rest) := by
  cases h with
  | none =>
    obtain ⟨c, tail, rfl⟩ := List.exists_cons_of_ne_nil hds.1
    have hc := hds.2 c (List.mem_cons_self ..)
    unfold readSign
    split
    · rename_i hminus
      rw [(List.cons.inj hminus).1] at hc
      cases hc
    · rename_i hplus
      rw [(List.cons.inj hplus).1] at hc
      cases hc
    · rfl
  | plus => rfl
  | minus => rfl

theorem readExponent_append {text : List Char} {exponent : Option Int}
    (h : SpellsExponent text exponent) (hrest : Ends rest) :
    readExponent (text ++ rest) = .ok (exponent, rest) := by
  cases h with
  | none =>
    cases rest with
    | nil => rfl
    | cons c tail =>
      have hc := hrest c rfl
      refine if_neg ?_
      rintro (rfl | rfl)
      · cases hc
      · cases hc
  | @digits e sign ds negative he hsign h =>
    have hdigits : readDigits (ds ++ rest) = .ok (ds, rest) :=
      readDigits_append h.1 h.2 fun c hc => not_isDigit_of_continues (hrest c hc)
    rw [List.append_assoc, List.cons_append]
    unfold readExponent
    simp only [if_pos he, readSign_append hsign h]
    exact bind_eq_ok_iff.mpr ⟨_, hdigits, rfl⟩

theorem SpellsWhole.head_isDigit {whole : List Char} (h : SpellsWhole whole) :
    ∃ c tail, whole = c :: tail ∧ c.isDigit := by
  cases h with
  | zero => exact ⟨'0', [], rfl, rfl⟩
  | digits h =>
    obtain ⟨c, tail, rfl⟩ := List.exists_cons_of_ne_nil h.1
    exact ⟨c, tail, rfl, h.2 c (List.mem_cons_self ..)⟩

/-- A sign is told from the digit behind it. -/
theorem head_signText_append (negative : Bool) {u : List Char} {c : Char} {tail : List Char}
    (hu : u = c :: tail) (hc : c.isDigit) :
    ((signText negative ++ u).head? == some '-') = negative ∧
      (if negative then (signText negative ++ u).drop 1 else signText negative ++ u) = u := by
  cases negative with
  | true => exact ⟨rfl, rfl⟩
  | false =>
    refine ⟨beq_eq_false_iff_ne.mpr fun h => ?_, rfl⟩
    rw [hu] at h
    rw [Option.some.inj h] at hc
    cases hc

/-- Behind a whole part a fraction or an exponent goes on without a digit. -/
theorem head_fraction_append {fractionText fraction exponentText : List Char}
    {exponent : Option Int} (hfraction : SpellsFraction fractionText fraction)
    (hexponent : SpellsExponent exponentText exponent) (hrest : Ends rest) :
    (∀ c ∈ (exponentText ++ rest).head?, c.isDigit = false ∧ c ≠ '.') ∧
      ∀ c ∈ (fractionText ++ (exponentText ++ rest)).head?, c.isDigit = false := by
  have hbehind : ∀ c ∈ (exponentText ++ rest).head?, c.isDigit = false ∧ c ≠ '.' := by
    intro c hc
    cases hexponent with
    | none =>
      refine ⟨not_isDigit_of_continues (hrest c hc), ?_⟩
      rintro rfl
      cases hrest '.' hc
    | digits he =>
      obtain rfl := Option.some.inj hc
      rcases he with rfl | rfl
      · decide
      · decide
  refine ⟨hbehind, fun c hc => ?_⟩
  cases hfraction with
  | none => exact (hbehind c hc).1
  | digits h =>
    obtain rfl := Option.some.inj hc
    rfl

/-- **A spelling is read to its end**, unless the text behind it goes on like a numeral. -/
theorem read_append {text : List Char} {n : Numeral} (h : Spells text n) (hrest : Ends rest) :
    read (text ++ rest) = .ok (n, rest) := by
  obtain ⟨negative, hwhole, hfraction, hexponent⟩ := h
  obtain ⟨hbehind, hdigit⟩ := head_fraction_append hfraction hexponent hrest
  have hw := readWhole_append hwhole hdigit
  have hf := readFraction_append hfraction hbehind
  have he := readExponent_append hexponent hrest
  obtain ⟨c, tail, htail, hc⟩ := hwhole.head_isDigit
  obtain ⟨hsign, hdrop⟩ :=
    head_signText_append negative (congrArg (· ++ _) htail : _ = c :: (tail ++ _)) hc
  rw [List.append_assoc, List.append_assoc, List.append_assoc]
  unfold read
  rw [hsign]
  exact bind_eq_ok_iff.mpr ⟨_, (congrArg readWhole hdrop).trans hw,
    bind_eq_ok_iff.mpr ⟨_, hf, bind_eq_ok_iff.mpr ⟨_, he, rfl⟩⟩⟩

/-- A text spells one numeral at most. -/
theorem Spells.unique {text : List Char} {n n' : Numeral} (h : Spells text n)
    (h' : Spells text n') : n = n' := by
  have hends : Ends [] := nofun
  have hread := read_append h hends
  rw [read_append h' hends] at hread
  exact (congrArg Prod.fst (Except.ok.inj hread)).symm

end ArithTree.Json.Numeral
