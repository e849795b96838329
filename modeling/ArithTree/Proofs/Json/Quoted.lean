import ArithTree.Json.Quoted
import ArithTree.Proofs.Reading

/-!
# The grammar of JSON strings

Between its quotes a string has characters that stand for themselves and escapes, which stand for one
character each. `Quoted.Spells` says so of the text as a whole, where `Quoted.read` goes from one
character to the next and passes over what an escape has taken.

* `Quoted.readEscape_append`, `Quoted.spellsEscape_of_readEscape`: the escapes that are understood, and
  how many characters they take.
* `Quoted.read_eq_ok_iff`: a string is read up to the first quote that is not part of an escape.
-/

namespace ArithTree.Json.Quoted

variable {s rest text : List Char}

/-! ## Spellings -/

/-- The letters of short escapes, and the characters that they stand for. -/
def letters : List (Char × Char) :=
  [('"', '"'), ('\\', '\\'), ('/', '/'), ('b', '\x08'), ('f', '\x0c'), ('n', '\n'), ('r', '\r'),
    ('t', '\t')]

/-- What stands behind the backslash of an escape, and the character that it stands for: a letter, a
unit that is no surrogate, or a leading and a trailing surrogate. -/
inductive SpellsEscape : List Char → Char → Prop
  | letter {c d : Char} (h : (c, d) ∈ letters) : SpellsEscape [c] d
  | unit {a b c d : Char} {unit : Nat} (h : hexValue? a b c d = some unit)
      (hleading : isLeadingSurrogate unit = false) (htrailing : isTrailingSurrogate unit = false) :
      SpellsEscape ['u', a, b, c, d] (Char.ofNat unit)
  | pair {a b c d a' b' c' d' : Char} {lead trail : Nat} (h : hexValue? a b c d = some lead)
      (hleading : isLeadingSurrogate lead = true) (h' : hexValue? a' b' c' d' = some trail)
      (htrailing : isTrailingSurrogate trail = true) :
      SpellsEscape ['u', a, b, c, d, '\\', 'u', a', b', c', d']
        (Char.ofNat ((lead - 0xd800) * 0x400 + (trail - 0xdc00) + 0x10000))

/-- The text between the quotes of a string, and the text that it stands for. -/
inductive Spells : List Char → List Char → Prop
  | nil : Spells [] []
  | plain {c : Char} {s text : List Char} (hquote : c ≠ '"') (hbackslash : c ≠ '\\')
      (hcontrol : ¬ c.toNat < 0x20) (h : Spells s text) : Spells (c :: s) (c :: text)
  | escape {e s text : List Char} {c : Char} (he : SpellsEscape e c) (h : Spells s text) :
      Spells ('\\' :: e ++ s) (c :: text)

/-- A text without quotes, backslashes and control characters is spelled by itself. -/
theorem spells_self {text : List Char}
    (h : ∀ c ∈ text, c ≠ '"' ∧ c ≠ '\\' ∧ ¬ c.toNat < 0x20) : Spells text text := by
  induction text with
  | nil => exact .nil
  | cons c text ih =>
    obtain ⟨hquote, hbackslash, hcontrol⟩ := h c (List.mem_cons_self ..)
    exact .plain hquote hbackslash hcontrol (ih fun d hd => h d (List.mem_cons_of_mem _ hd))

/-- The characters of escapes. -/
def isEscapeChar (c : Char) : Bool :=
  (hexDigit? c).isSome || c ∈ ['\\', '"', '/', 'b', 'f', 'n', 'r', 't', 'u']

theorem isEscapeChar_of_hexValue? {a b c d : Char} {unit : Nat}
    (h : hexValue? a b c d = some unit) {e : Char} (he : e ∈ [a, b, c, d]) : isEscapeChar e := by
  unfold hexValue? at h
  simp only [bind, pure, Option.bind_eq_some_iff] at h
  obtain ⟨_, ha, _, hb, _, hc, _, hd, -⟩ := h
  simp only [List.mem_cons, List.not_mem_nil, or_false] at he
  rcases he with rfl | rfl | rfl | rfl <;> simp [isEscapeChar, *]

theorem isEscapeChar_of_mem {e : List Char} {c : Char} (h : SpellsEscape e c) {d : Char}
    (hd : d ∈ e) : isEscapeChar d := by
  cases h with
  | letter h =>
    obtain rfl := List.mem_singleton.mp hd
    simp only [letters, List.mem_cons, Prod.mk.injEq, List.not_mem_nil, or_false] at h
    rcases h with ⟨rfl, -⟩ | ⟨rfl, -⟩ | ⟨rfl, -⟩ | ⟨rfl, -⟩ | ⟨rfl, -⟩ | ⟨rfl, -⟩ | ⟨rfl, -⟩ |
      ⟨rfl, -⟩ <;> rfl
  | unit h =>
    rcases List.mem_cons.mp hd with rfl | hd
    · rfl
    · exact isEscapeChar_of_hexValue? h hd
  | @pair a₁ a₂ a₃ a₄ b₁ b₂ b₃ b₄ _ _ h _ h' =>
    rcases List.mem_cons.mp hd with rfl | hd
    · rfl
    have hunits : d ∈ [a₁, a₂, a₃, a₄] ++ '\\' :: 'u' :: [b₁, b₂, b₃, b₄] := hd
    rcases List.mem_append.mp hunits with hd | hd
    · exact isEscapeChar_of_hexValue? h hd
    rcases List.mem_cons.mp hd with rfl | hd
    · rfl
    rcases List.mem_cons.mp hd with rfl | hd
    · rfl
    · exact isEscapeChar_of_hexValue? h' hd

/-- A character between the quotes is one of those that the string stands for, or belongs to an
escape. -/
theorem mem_or_isEscapeChar {raw : List Char} (h : Spells raw text) {c : Char} (hc : c ∈ raw) :
    c ∈ text ∨ isEscapeChar c := by
  induction h with
  | nil => cases hc
  | plain _ _ _ h ih =>
    rcases List.mem_cons.mp hc with rfl | hc
    · exact Or.inl (List.mem_cons_self ..)
    · exact (ih hc).imp (List.mem_cons_of_mem _) id
  | escape he h ih =>
    rcases List.mem_append.mp hc with hc | hc
    · rcases List.mem_cons.mp hc with rfl | hc
      · exact Or.inr rfl
      · exact Or.inr (isEscapeChar_of_mem he hc)
    · exact (ih hc).imp (List.mem_cons_of_mem _) id

/-! ## Escapes -/

theorem readUnit_eq_ok_iff {unit : Nat} : readUnit s = .ok unit ↔
    ∃ a b c d rest, s = a :: b :: c :: d :: rest ∧ hexValue? a b c d = some unit := by
  unfold readUnit
  split
  · rename_i a b c d rest
    split
    · rename_i u hu
      constructor
      · intro h
        cases h
        exact ⟨a, b, c, d, rest, rfl, hu⟩
      · rintro ⟨_, _, _, _, _, h, hunit⟩
        cases h
        rw [hu] at hunit
        rw [Option.some.inj hunit]
    · rename_i hu
      refine iff_of_false nofun ?_
      rintro ⟨_, _, _, _, _, h, hunit⟩
      cases h
      rw [hu] at hunit
      cases hunit
  · rename_i hshort
    refine iff_of_false ?_ ?_
    · split
      · nofun
      · nofun
    · rintro ⟨a, b, c, d, rest, h, -⟩
      exact hshort a b c d rest h

theorem isTrailingSurrogate_of_leading {unit : Nat} (h : isLeadingSurrogate unit = true) :
    isTrailingSurrogate unit = false := by
  simp only [isLeadingSurrogate, isTrailingSurrogate, Bool.and_eq_true, Bool.and_eq_false_iff,
    decide_eq_true_eq, decide_eq_false_iff_not] at h ⊢
  omega

/-- An escape is read as what it stands for, and takes all its characters. -/
theorem readEscape_append {e : List Char} {c : Char} (h : SpellsEscape e c) (rest : List Char) :
    readEscape (e ++ rest) = .ok (c, e.length) := by
  cases h with
  | letter h =>
    simp only [letters, List.mem_cons, Prod.mk.injEq, List.not_mem_nil, or_false] at h
    rcases h with ⟨rfl, rfl⟩ | ⟨rfl, rfl⟩ | ⟨rfl, rfl⟩ | ⟨rfl, rfl⟩ | ⟨rfl, rfl⟩ | ⟨rfl, rfl⟩ |
      ⟨rfl, rfl⟩ | ⟨rfl, rfl⟩ <;> rfl
  | @unit a b c d unit h hleading htrailing =>
    have hunit : readUnit (a :: b :: c :: d :: rest) = .ok unit :=
      readUnit_eq_ok_iff.mpr ⟨a, b, c, d, rest, rfl, h⟩
    have hpoint : readCodePoint (a :: b :: c :: d :: rest) = .ok (Char.ofNat unit, 4) := by
      refine bind_eq_ok_iff.mpr ⟨unit, hunit, ?_⟩
      rw [hleading, htrailing]
      rfl
    exact bind_eq_ok_iff.mpr ⟨_, hpoint, rfl⟩
  | @pair a b c d a' b' c' d' lead trail h hleading h' htrailing =>
    have hlead : readUnit (a :: b :: c :: d :: '\\' :: 'u' :: a' :: b' :: c' :: d' :: rest) =
        .ok lead := readUnit_eq_ok_iff.mpr ⟨a, b, c, d, _, rfl, h⟩
    have htrail : readUnit (a' :: b' :: c' :: d' :: rest) = .ok trail :=
      readUnit_eq_ok_iff.mpr ⟨a', b', c', d', rest, rfl, h'⟩
    have hpoint : readCodePoint (a :: b :: c :: d :: '\\' :: 'u' :: a' :: b' :: c' :: d' :: rest) =
        .ok (Char.ofNat ((lead - 0xd800) * 0x400 + (trail - 0xdc00) + 0x10000), 10) := by
      refine bind_eq_ok_iff.mpr ⟨lead, hlead, ?_⟩
      rw [hleading, isTrailingSurrogate_of_leading hleading]
      refine bind_eq_ok_iff.mpr ⟨trail, htrail, ?_⟩
      rw [htrailing]
      rfl
    exact bind_eq_ok_iff.mpr ⟨_, hpoint, rfl⟩

/-- What is read behind the `u` of an escape belongs to a unit or to a pair of surrogates. -/
theorem spellsEscape_of_readCodePoint {c : Char} {taken : Nat}
    (h : readCodePoint s = .ok (c, taken)) :
    ∃ e rest, SpellsEscape ('u' :: e) c ∧ taken = e.length ∧ s = e ++ rest := by
  obtain ⟨lead, hlead, h⟩ := bind_eq_ok_iff.mp h
  obtain ⟨a, b, c', d, tail, rfl, hvalue⟩ := readUnit_eq_ok_iff.mp hlead
  split at h
  · cases h
  rename_i htrailing
  split at h
  · rename_i hleading
    split at h
    · cases h
    · cases h
    · rename_i rest' hdrop
      obtain ⟨trail, htrail, hpair⟩ := bind_eq_ok_iff.mp h
      clear h
      obtain ⟨a', b', c'', d', tail', rfl, hvalue'⟩ := readUnit_eq_ok_iff.mp htrail
      split at hpair
      · rename_i htrailing'
        obtain ⟨rfl, rfl⟩ := Prod.mk.inj (Except.ok.inj hpair)
        obtain rfl : tail = _ := hdrop
        exact ⟨[a, b, c', d, '\\', 'u', a', b', c'', d'], tail',
          .pair hvalue hleading hvalue' htrailing', rfl, rfl⟩
      · cases hpair
    · cases h
  · rename_i hleading
    cases h
    exact ⟨[a, b, c', d], tail,
      .unit hvalue (Bool.not_eq_true _ ▸ hleading) (Bool.not_eq_true _ ▸ htrailing), rfl, rfl⟩

/-- What is read as an escape is one. -/
theorem spellsEscape_of_readEscape {c : Char} {taken : Nat} (h : readEscape s = .ok (c, taken)) :
    ∃ e rest, SpellsEscape e c ∧ taken = e.length ∧ s = e ++ rest := by
  unfold readEscape at h
  split at h
  · cases h
  rename_i first tail
  have hletter : ∀ d, (first, d) ∈ letters → (.ok (d, 1) : Except Refusal _) = .ok (c, taken) →
      ∃ e rest, SpellsEscape e c ∧ taken = e.length ∧ first :: tail = e ++ rest := by
    intro d hd heq
    cases heq
    exact ⟨[first], tail, .letter hd, rfl, rfl⟩
  split at h
  · rename_i hfirst
    refine hletter first ?_ h
    rcases hfirst with rfl | rfl | rfl <;> decide
  split at h
  · rename_i hfirst
    exact hletter _ (by rw [hfirst]; decide) h
  split at h
  · rename_i hfirst
    exact hletter _ (by rw [hfirst]; decide) h
  split at h
  · rename_i hfirst
    exact hletter _ (by rw [hfirst]; decide) h
  split at h
  · rename_i hfirst
    exact hletter _ (by rw [hfirst]; decide) h
  split at h
  · rename_i hfirst
    exact hletter _ (by rw [hfirst]; decide) h
  split at h
  · rename_i hfirst
    obtain ⟨⟨d, n⟩, hpoint, h⟩ := bind_eq_ok_iff.mp h
    cases h
    obtain ⟨e, rest, he, rfl, rfl⟩ := spellsEscape_of_readCodePoint hpoint
    exact ⟨'u' :: e, rest, he, rfl, by rw [hfirst]; rfl⟩
  · cases h

/-! ## Strings -/

/-- What is spelled is read up to the quote behind it. -/
theorem read_append {raw : List Char} (h : Spells raw text) (rest : List Char) :
    read (raw ++ '"' :: rest) = .ok (text, rest) := by
  induction h with
  | nil => rfl
  | @plain c s text hquote hbackslash hcontrol h ih =>
    rw [List.cons_append]
    unfold read readFrom
    rw [if_neg hquote, if_neg hbackslash, if_neg hcontrol]
    exact bind_eq_ok_iff.mpr ⟨_, ih, rfl⟩
  | @escape e s text c he h ih =>
    have hread : readFrom e.length (e ++ (s ++ '"' :: rest)) = .ok (text, rest) :=
      (readFrom_length e _).trans ih
    rw [List.append_assoc, List.cons_append]
    exact bind_eq_ok_iff.mpr ⟨_, readEscape_append he _, bind_eq_ok_iff.mpr ⟨_, hread, rfl⟩⟩

/-- Without a quote that ends it a string is not read, but nothing is wrong with it. -/
theorem read_unfinished (h : ∀ c ∈ s, c ≠ '"' ∧ c ≠ '\\' ∧ ¬ c.toNat < 0x20) :
    read s = .error .truncated := by
  induction s with
  | nil => rfl
  | cons c s ih =>
    obtain ⟨hquote, hbackslash, hcontrol⟩ := h c (List.mem_cons_self ..)
    unfold read readFrom
    rw [if_neg hquote, if_neg hbackslash, if_neg hcontrol]
    exact bind_eq_error_iff.mpr (Or.inl (ih fun d hd => h d (List.mem_cons_of_mem _ hd)))

/-- What is read is spelled. The induction is on the length of the text, because an escape takes
several characters at once. -/
theorem spells_of_read (h : read s = .ok (text, rest)) :
    ∃ raw, Spells raw text ∧ s = raw ++ '"' :: rest := by
  induction hlength : s.length using Nat.strongRecOn generalizing s text with
  | ind n ih =>
    cases s with
    | nil => cases h
    | cons c s =>
      unfold read readFrom at h
      split at h
      · rename_i hquote
        cases h
        exact ⟨[], .nil, by rw [hquote]; rfl⟩
      rename_i hquote
      split at h
      · rename_i hbackslash
        obtain ⟨⟨d, taken⟩, hescape, h⟩ := bind_eq_ok_iff.mp h
        obtain ⟨⟨text', rest'⟩, hread, h⟩ := bind_eq_ok_iff.mp h
        cases h
        obtain ⟨e, behind, he, rfl, rfl⟩ := spellsEscape_of_readEscape hescape
        have hread' : read behind = .ok (text', rest) := (readFrom_length e behind).symm.trans hread
        have hlt : behind.length < n := by
          rw [← hlength, List.length_cons, List.length_append]
          omega
        obtain ⟨raw, hraw, rfl⟩ := ih behind.length hlt hread' rfl
        exact ⟨'\\' :: e ++ raw, .escape he hraw, by rw [hbackslash]; simp⟩
      rename_i hbackslash
      split at h
      · cases h
      rename_i hcontrol
      obtain ⟨⟨text', rest'⟩, hread, h⟩ := bind_eq_ok_iff.mp h
      cases h
      have hlt : s.length < n := by
        rw [← hlength, List.length_cons]
        omega
      obtain ⟨raw, hraw, rfl⟩ := ih s.length hlt hread rfl
      exact ⟨c :: raw, .plain hquote hbackslash hcontrol hraw, rfl⟩

/-- **A string is read up to the first quote that is not part of an escape.** -/
theorem read_eq_ok_iff :
    read s = .ok (text, rest) ↔ ∃ raw, Spells raw text ∧ s = raw ++ '"' :: rest := by
  constructor
  · exact spells_of_read
  · rintro ⟨raw, hraw, rfl⟩
    exact read_append hraw rest

end ArithTree.Json.Quoted
