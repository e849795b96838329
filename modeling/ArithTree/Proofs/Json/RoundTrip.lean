import ArithTree.Proofs.Json.Literals
import ArithTree.Proofs.Tree.Leaves
import ArithTree.Tree.Text

/-!
# Trees that are written and read back

The text of a tree derives the tree if its literals are finite, and is read if there are brackets
enough for it: the tree fits (`Tree.Fits`). A tree that does not fit has an obstacle in its text, a
bracket too many or the `null` of an infinity. The reader stops at the first one, wherever in the tree
that is (`Json.Stops`). The induction is on the tree, for every number of brackets that are left and
every rest behind the text.

* `Json.fits_or_stops`: every tree fits or is refused at the first obstacle.
* `Tree.ofJson_toJson_iff`: which trees are read back, as what, and how the others are refused.
* `Tree.ofJson_toJson_faithful`: what is read back is what was written.
-/

namespace ArithTree

variable {F : Format}

namespace Json

variable {text p s rest : List Char} {r : Refusal} {kind : NodeKind}

/-! ## What is written for a node -/

/-- A node up to its content. -/
def opening (kind : NodeKind) : List Char := '\x7b' :: ('"' :: kind.name ++ ['"'] ++ [':'])

theorem entry_eq (kind : NodeKind) (content : List Char) :
    entry kind content = opening kind ++ content ++ ['\x7d'] := by
  simp [entry, opening]

theorem opens_opening (kind : NodeKind) (after : List Char) :
    Opens kind after (opening kind ++ after) := by
  have hopens : Opens kind after _ := .brace blank_nil (spells_name kind) (.refl _)
  simpa [opening] using hopens

theorem bracketsWithin_opening (kind : NodeKind) (n : Int) (v : List Char) :
    BracketsWithin (n + 1) (opening kind ++ v) ↔ BracketsWithin n v := by
  have hname : Peaks 0 ('"' :: kind.name ++ ['"'] ++ [':']) :=
    (peaks_name (spells_name kind)).append (peaks_of_flat (by simp [bracket]))
  have hinner : n + 1 - bracket '\x7b' = n := Int.add_sub_cancel n 1
  unfold opening
  rw [List.cons_append, bracketsWithin_cons, hinner, hname]
  constructor
  · exact fun h => h.2.2
  · intro h
    have hnonneg := h.nonneg
    exact ⟨by omega, by simpa using hnonneg, h⟩

theorem n_notMem_opening (kind : NodeKind) : 'n' ∉ opening kind := by
  rcases kind with _ | (_ | _) | _ <;> decide

/-! ## The first obstacle in a text -/

/-- The text of an infinity. -/
def nullText : List Char := ['n', 'u', 'l', 'l']

/-- The first obstacle on the way through a text from the left, and how it is refused: a bracket
too many, with no infinity before it, or an infinity, with no bracket too many before it. -/
inductive Stops (F : Format) (n : Int) (text : List Char) : Refusal → Prop
  | tooDeep {p : List Char} (hp : p <+: text) (hdeep : ¬ BracketsWithin n p)
      (hnull : ¬ nullText <:+: p) : Stops F n text .malformed
  | null {p : List Char} (hp : p ++ nullText <+: text) (hwithin : BracketsWithin n p) :
      Stops F n text (.mismatch (.wrongType .null (.number F)))

theorem Stops.append (h : Stops F n text r) (v : List Char) : Stops F n (text ++ v) r := by
  cases h with
  | tooDeep hp hdeep hnull => exact .tooDeep (hp.trans (List.prefix_append ..)) hdeep hnull
  | null hp hwithin => exact .null (hp.trans (List.prefix_append ..)) hwithin

/-- A `null` behind a text without an `n` does not begin in that text. -/
theorem nullText_infix_of_append {u : List Char} (hu : 'n' ∉ u) (h : nullText <:+: u ++ p) :
    nullText <:+: p := by
  obtain ⟨before, behind, heq⟩ := h
  rw [List.append_assoc, List.append_eq_append_iff] at heq
  rcases heq with ⟨middle, rfl, hnull⟩ | ⟨middle, rfl, rfl⟩
  · cases middle with
    | nil => exact ⟨[], behind, by simpa using hnull⟩
    | cons c middle =>
      obtain rfl : 'n' = c := (List.cons.inj hnull).1
      exact absurd (List.mem_append_right _ (List.mem_cons_self ..)) hu
  · exact ⟨middle, behind, by simp⟩

/-- A text that only uses up brackets does not change the first obstacle behind it. -/
theorem Stops.prepend {u : List Char} {m n : Int}
    (hu : ∀ v, BracketsWithin m (u ++ v) ↔ BracketsWithin n v) (hn : 'n' ∉ u)
    (h : Stops F n text r) : Stops F m (u ++ text) r := by
  cases h with
  | tooDeep hp hdeep hnull =>
    refine .tooDeep ((List.prefix_append_right_inj u).mpr hp) (mt (hu _).mp hdeep) ?_
    exact mt (nullText_infix_of_append hn) hnull
  | null hp hwithin =>
    refine .null ?_ ((hu _).mpr hwithin)
    rw [List.append_assoc]
    exact (List.prefix_append_right_inj u).mpr hp

/-- A bracket too many and an infinity are not both the first obstacle. -/
theorem not_bracketsWithin_of_tooDeep {n : Int} {q : List Char} (hp : p <+: text)
    (hdeep : ¬ BracketsWithin n p) (hnull : ¬ nullText <:+: p) (hq : q ++ nullText <+: text) :
    ¬ BracketsWithin n q := by
  intro hwithin
  have hflat : BracketsWithin n (q ++ nullText) :=
    (bracketsWithin_append_flat (by simp [nullText, bracket])).mpr hwithin
  rcases List.prefix_or_prefix_of_prefix hp hq with hle | hle
  · exact hdeep (hflat.of_prefix hle)
  · exact hnull ((List.suffix_append q nullText).isInfix.trans hle.isInfix)

/-- **A text has one first obstacle at most.** -/
theorem Stops.unique {n : Int} {r' : Refusal} (h : Stops F n text r) (h' : Stops F n text r') :
    r = r' := by
  cases h with
  | tooDeep hp hdeep hnull =>
    cases h' with
    | tooDeep => rfl
    | null hq hwithin => exact absurd hwithin (not_bracketsWithin_of_tooDeep hp hdeep hnull hq)
  | null hq hwithin =>
    cases h' with
    | tooDeep hp hdeep hnull =>
      exact absurd hwithin (not_bracketsWithin_of_tooDeep hp hdeep hnull hq)
    | null => rfl

/-! ## Obstacles inside of a node -/

theorem Stops.entry {n : Nat} {content : List Char} (h : Stops F n content r) (kind : NodeKind) :
    Stops F (n + 1 : Nat) (entry kind content) r := by
  rw [entry_eq]
  exact (h.prepend (bracketsWithin_opening kind n) (n_notMem_opening kind)).append ['\x7d']

/-- In a list, behind a text that opens and closes no more brackets than there are. -/
theorem Stops.behind {n k : Nat} {u : List Char} (h : Stops F n text r) (hu : Peaks k u)
    (hk : k ≤ n) (hn : 'n' ∉ u) (v : List Char) :
    Stops F (n + 1 : Nat) ('[' :: u ++ text ++ v) r := by
  have hinner : (n : Int) + 1 - bracket '[' = n := Int.add_sub_cancel (n : Int) 1
  have hbrackets (v : List Char) :
      BracketsWithin (n + 1 : Nat) ('[' :: u ++ v) ↔ BracketsWithin n v := by
    rw [List.cons_append, bracketsWithin_cons, Int.natCast_succ, hinner, hu]
    constructor
    · exact fun h => h.2.2
    · exact fun h => ⟨by omega, by omega, h⟩
  have hlist : 'n' ∉ '[' :: u := fun h => (List.mem_cons.mp h).elim (by decide) hn
  exact (h.prepend hbrackets hlist).append v

/-! ## Reading what is written -/

/-- Where no bracket may be opened, the first one is the obstacle. -/
theorem stops_zero {c : Char} (hc : bracket c = 1) (text : List Char) :
    Stops F (0 : Nat) (c :: text) .malformed := by
  refine .tooDeep (p := [c]) ⟨text, rfl⟩ (fun h => ?_) fun h => ?_
  · have hopen : bracket c + 0 ≤ 0 := h [c] (List.prefix_refl _)
    omega
  · have hlength : 4 ≤ 1 := h.length_le
    omega

/-- Without a bracket left no node is read. -/
theorem readTree_zero_entry (F : Format) (kind : NodeKind) (content rest : List Char) :
    readTree F 0 (entry kind content ++ rest) = .error .malformed ∧
      Stops F (0 : Nat) (entry kind content) .malformed :=
  ⟨rfl, stops_zero rfl _⟩

theorem readTree_error {n : Nat} {content : List Char}
    (h : readContent F n kind (content ++ '\x7d' :: rest) = .error r) :
    readTree F (n + 1) (entry kind content ++ rest) = .error r := by
  rw [entry_eq, List.append_assoc, List.append_assoc]
  exact (readTree_of_opens (opens_opening kind _)).trans (bind_eq_error_iff.mpr (Or.inl h))

section Children

variable (op : Operation) {read : Reader (Tree F)}

theorem readChildren_left_error (hs : (skipBlanks s).head? ≠ some ']') (h : read s = .error r) :
    readChildren op (some read) ('[' :: s) = .error r :=
  (readChildren_bracket op blank_nil hs).trans (bind_eq_error_iff.mpr (Or.inl h))

theorem readChildren_right_error {l : Tree F} {s₂ : List Char}
    (hs : (skipBlanks s).head? ≠ some ']') (hl : read s = .ok (l, ',' :: s₂))
    (h : read s₂ = .error r) : readChildren op (some read) ('[' :: s) = .error r :=
  (readChildren_comma op blank_nil blank_nil hs hl).trans (bind_eq_error_iff.mpr (Or.inl h))

end Children

end Json

/-! ## Trees without obstacles -/

/-- The literals of the tree are finite, and its text does not have more than `n` brackets open. -/
def Tree.Fits (n : Nat) (t : Tree F) : Prop :=
  (∀ x ∈ t.literals, x.isInfinite = false) ∧ t.nesting ≤ n

/-- The operand of a tree that fits does so with one bracket less. -/
theorem Tree.Fits.neg {n : Nat} {e : Tree F} (h : (Tree.neg e).Fits n) :
    ∃ m, n = m + 1 ∧ e.Fits m := by
  have hnesting : 1 + e.nesting ≤ n := h.2
  exact ⟨n - 1, by omega, h.1, by omega⟩

/-- Two operands fit with two brackets less. -/
theorem Tree.Fits.binary {n : Nat} {op : Operation} {l r : Tree F}
    (h : (Tree.binary op l r).Fits n) : ∃ m, n = m + 2 ∧ l.Fits m ∧ r.Fits m := by
  have hnesting : 2 + max l.nesting r.nesting ≤ n := h.2
  refine ⟨n - 2, by omega, ⟨fun x hx => h.1 x ?_, by omega⟩, ⟨fun x hx => h.1 x ?_, by omega⟩⟩
  · exact List.mem_append_left _ hx
  · exact List.mem_append_right _ hx

namespace Json

variable {t : Tree F} {n : Nat}

/-- The text of a tree with finite literals derives it. -/
theorem derives_jsonText (h : ∀ x ∈ t.literals, x.isInfinite = false) :
    Derives (Numeral.Denotes F) t.jsonText t := by
  induction t with
  | num x =>
    obtain ⟨n, hn, hx⟩ := Number.exists_spells_jsonText (h x (List.mem_singleton_self x))
    exact .num hn hx (entry_written ..)
  | binary op l r ihl ihr =>
    have hl := ihl fun x hx => h x (List.mem_append_left _ hx)
    have hr := ihr fun x hx => h x (List.mem_append_right _ hx)
    have hpair := Pair.brackets (.refl l.jsonText) (.refl r.jsonText)
    exact .binary op hl hr hpair (entry_written ..)
  | neg e ih => exact .neg (ih h) (entry_written ..)

theorem n_notMem_tree (h : ∀ x ∈ t.literals, x.isInfinite = false) : 'n' ∉ t.jsonText := by
  have hentry {kind : NodeKind} {content : List Char} (hcontent : 'n' ∉ content) :
      'n' ∉ entry kind content := by
    rw [entry_eq]
    simp [n_notMem_opening, hcontent]
  induction t with
  | num x => exact hentry (Number.n_notMem_jsonText (h x (List.mem_singleton_self x)))
  | binary op l r ihl ihr =>
    have hl := ihl fun x hx => h x (List.mem_append_left _ hx)
    have hr := ihr fun x hx => h x (List.mem_append_right _ hx)
    exact hentry (by simp [hl, hr])
  | neg e ih => exact hentry (ih h)

/-- A tree that fits is read back from its text, whatever stands behind it. -/
theorem readTree_jsonText (h : t.Fits n) (rest : List Char) :
    readTree F n (t.jsonText ++ rest) = .ok (t, rest) :=
  readTree_append (derives_jsonText h.1) h.2 blank_nil rest

theorem head_jsonText (t : Tree F) (rest : List Char) :
    (skipBlanks (t.jsonText ++ rest)).head? ≠ some ']' := by
  cases t <;> exact fun h => nomatch h

/-- The content of an infinite literal. -/
theorem readContent_null (F : Format) (n : Nat) (rest : List Char) :
    readContent F n .num (nullText ++ '\x7d' :: rest)
      = .error (.mismatch (.wrongType .null (.number F))) := rfl

/-- A bracket around two operands, where none is left. -/
theorem readContent_pair_zero (F : Format) (op : Operation) (s : List Char) :
    readContent F 0 (.binary op) ('[' :: s) = .error .malformed := rfl

/-- A binary node is refused if its left operand is. -/
theorem readContent_left {l r : Tree F} {e : Refusal} (op : Operation)
    (hread : readTree F n (l.jsonText ++ (',' :: r.jsonText ++ ']' :: rest)) = .error e)
    (hstops : Stops F n l.jsonText e) :
    readContent F (n + 1) (.binary op) ('[' :: l.jsonText ++ ',' :: r.jsonText ++ [']'] ++ rest)
        = .error e ∧
      Stops F (n + 1 : Nat) ('[' :: l.jsonText ++ ',' :: r.jsonText ++ [']']) e := by
  constructor
  · have hchildren := readChildren_left_error op (head_jsonText l _) hread
    refine bind_eq_error_iff.mpr (Or.inl ?_)
    simpa [childReader] using hchildren
  · have hbehind := hstops.behind peaks_nil (Nat.zero_le n) (List.not_mem_nil)
      (',' :: r.jsonText ++ [']'])
    simpa using hbehind

/-- A binary node is refused if its left operand fits and its right one is refused. -/
theorem readContent_right {l r : Tree F} {e : Refusal} (op : Operation) (hl : l.Fits n)
    (hread : readTree F n (r.jsonText ++ ']' :: rest) = .error e)
    (hstops : Stops F n r.jsonText e) :
    readContent F (n + 1) (.binary op) ('[' :: l.jsonText ++ ',' :: r.jsonText ++ [']'] ++ rest)
        = .error e ∧
      Stops F (n + 1 : Nat) ('[' :: l.jsonText ++ ',' :: r.jsonText ++ [']']) e := by
  constructor
  · have hleft := readTree_jsonText hl (',' :: (r.jsonText ++ ']' :: rest))
    have hchildren := readChildren_right_error op (head_jsonText l _) hleft hread
    refine bind_eq_error_iff.mpr (Or.inl ?_)
    simpa [childReader] using hchildren
  · have hpeaks := (derives_jsonText hl.1).peaks.append (peaks_of_flat (s := [','])
      (by simp [bracket]))
    have hnone : 'n' ∉ l.jsonText ++ [','] := by simp [n_notMem_tree hl.1]
    have hbehind := hstops.behind hpeaks (by simpa using hl.2) hnone [']']
    simpa using hbehind

/-- **Every tree fits, or it is refused at the first obstacle in its text.** -/
theorem fits_or_stops (t : Tree F) (n : Nat) (rest : List Char) :
    t.Fits n ∨ ∃ r, readTree F n (t.jsonText ++ rest) = .error r ∧ Stops F n t.jsonText r := by
  induction t generalizing n rest with
  | num x =>
    cases n with
    | zero => exact Or.inr ⟨_, readTree_zero_entry F .num x.jsonText rest⟩
    | succ n =>
      by_cases hx : x.isInfinite
      · have htext : x.jsonText = nullText := if_pos hx
        have hread := readContent_null F n rest
        have hstops : Stops F n nullText _ :=
          .null (p := []) (List.prefix_refl _) (bracketsWithin_nil.mpr (Int.natCast_nonneg n))
        rw [← htext] at hread hstops
        exact Or.inr ⟨_, readTree_error hread, hstops.entry .num⟩
      · refine Or.inl ⟨fun y hy => ?_, Nat.succ_le_succ (Nat.zero_le n)⟩
        rw [List.mem_singleton.mp hy]
        exact Bool.not_eq_true _ ▸ hx
  | binary op l r ihl ihr =>
    match n with
    | 0 => exact Or.inr ⟨_, readTree_zero_entry F (.binary op) _ rest⟩
    | 1 =>
      have hread := readContent_pair_zero F op
        (l.jsonText ++ ',' :: r.jsonText ++ [']'] ++ '\x7d' :: rest)
      have hstops : Stops F (0 : Nat) ('[' :: l.jsonText ++ ',' :: r.jsonText ++ [']']) _ :=
        stops_zero rfl _
      exact Or.inr ⟨_, readTree_error hread, hstops.entry (.binary op)⟩
    | n + 2 =>
      -- The right operand counts only where the left one fits, and then the text before it has
      -- no obstacle and closes what it opens.
      rcases ihl n (',' :: r.jsonText ++ ']' :: '\x7d' :: rest) with hl | ⟨e, hread, hstops⟩
      · rcases ihr n (']' :: '\x7d' :: rest) with hr | ⟨e, hread, hstops⟩
        · refine Or.inl ⟨fun x hx => ?_, ?_⟩
          · exact (List.mem_append.mp hx).elim (hl.1 x) (hr.1 x)
          · have hln := hl.2
            have hrn := hr.2
            simp only [Tree.nesting]
            omega
        · obtain ⟨hcontent, hstops⟩ := readContent_right op hl hread hstops
          exact Or.inr ⟨e, readTree_error hcontent, hstops.entry (.binary op)⟩
      · obtain ⟨hcontent, hstops⟩ := readContent_left op hread hstops
        exact Or.inr ⟨e, readTree_error hcontent, hstops.entry (.binary op)⟩
  | neg e ih =>
    cases n with
    | zero => exact Or.inr ⟨_, readTree_zero_entry F .neg e.jsonText rest⟩
    | succ n =>
      rcases ih n ('\x7d' :: rest) with ⟨hfinite, hn⟩ | ⟨r, hread, hstops⟩
      · refine Or.inl ⟨hfinite, ?_⟩
        simp only [Tree.nesting]
        omega
      · exact Or.inr ⟨r, readTree_error (bind_eq_error_iff.mpr (Or.inl hread)), hstops.entry .neg⟩

/-! ## The whole text -/

/-- A tree that fits has no obstacle in its text. -/
theorem not_stops_of_fits (h : t.Fits n) : ¬ Stops F n t.jsonText r := by
  intro hstops
  have hwithin := ((derives_jsonText h.1).bracketsWithin_iff (.refl _) n).mpr h.2
  cases hstops with
  | tooDeep hp hdeep => exact hdeep (hwithin.of_prefix hp)
  | null hp =>
    refine n_notMem_tree h.1 (hp.subset (List.mem_append_right _ ?_))
    exact List.mem_cons_self ..

theorem readText_jsonText (h : t.Fits maxOpenBrackets) : readText F t.jsonText = .ok t := by
  have hread := readTree_jsonText h []
  rw [List.append_nil] at hread
  exact bind_eq_ok_iff.mpr ⟨_, hread, rfl⟩

theorem fits_or_readText_stops (t : Tree F) :
    t.Fits maxOpenBrackets ∨
      ∃ r, readText F t.jsonText = .error r ∧ Stops F maxOpenBrackets t.jsonText r := by
  rcases fits_or_stops t maxOpenBrackets [] with hfits | ⟨r, hread, hstops⟩
  · exact Or.inl hfits
  · rw [List.append_nil] at hread
    exact Or.inr ⟨r, bind_eq_error_iff.mpr (Or.inl hread), hstops⟩

end Json

namespace Tree

theorem toList_toJson (t : Tree F) : t.toJson.toList = t.jsonText := by
  rw [toJson_eq, String.toList_ofList]

/-- The leaves of a tree with finite literals are read back as they are. -/
theorem alike_read_iff {t u : Tree F} (h : ∀ x ∈ t.literals, x.isInfinite = false) :
    t.Alike (fun x y => Json.readLiteral F x.jsonText = .ok (y, [])) u ↔ t = u := by
  have hread (x : Number F) (hx : x ∈ t.literals) :
      Json.readLiteral F x.jsonText = .ok (x, []) := by
    have hends : Json.Numeral.Ends [] := fun _ hc => nomatch hc
    simpa using Number.readLiteral_jsonText (h x hx) hends
  constructor
  · intro halike
    refine halike.eq fun x hx y hy => ?_
    rw [hread x hx] at hy
    exact congrArg Prod.fst (Except.ok.inj hy)
  · rintro rfl
    exact alike_refl hread

/-- **What is written is read back exactly if it can be.** A tree is read back if its literals are
finite and no more than 127 brackets are open at once; then it has its shape, and at its leaves the
numbers that their texts are read as. Any other tree is refused, and for the first obstacle in its
text: as malformed at a bracket too many, as a mismatch at an infinity, with the message of its format. -/
theorem ofJson_toJson_iff (F : Format) (t : Tree F) :
    (∀ u, ofJson F t.toJson = .ok u ↔
      ((∀ x ∈ t.literals, x.isInfinite = false) ∧ t.nesting ≤ 127) ∧
        t.Alike (fun x y => Json.readLiteral F x.jsonText = .ok (y, [])) u) ∧
    (∀ r, ofJson F t.toJson = .error r ↔ Json.Stops F 127 t.toJson.toList r) ∧
    (Mismatch.wrongType .null (.number .binary64)).message = "invalid type: null, expected f64" ∧
    (Mismatch.wrongType .null (.number .binary32)).message = "invalid type: null, expected f32" := by
  unfold ofJson
  rw [toList_toJson]
  rcases Json.fits_or_readText_stops t with hfits | ⟨e, hread, hstops⟩
  · rw [Json.readText_jsonText hfits]
    refine ⟨fun u => ?_, fun r => ?_, rfl, rfl⟩
    · rw [alike_read_iff hfits.1, Except.ok.injEq]
      exact ⟨fun h => ⟨hfits, h⟩, fun h => h.2⟩
    · exact iff_of_false (fun h => nomatch h) (Json.not_stops_of_fits hfits)
  · rw [hread]
    refine ⟨fun u => ?_, fun r => ?_, rfl, rfl⟩
    · exact iff_of_false (fun h => nomatch h) fun h => Json.not_stops_of_fits h.1 hstops
    · rw [Except.error.injEq]
      constructor
      · rintro rfl
        exact hstops
      · exact fun h => hstops.unique h

/-- Only a tree that fits is read back, and it is read back as it is. -/
theorem fits_of_ofJson_toJson {t u : Tree F} (h : ofJson F t.toJson = .ok u) :
    t.Fits Json.maxOpenBrackets ∧ u = t := by
  unfold ofJson at h
  rw [toList_toJson] at h
  rcases Json.fits_or_readText_stops t with hfits | ⟨e, hread, -⟩
  · rw [Json.readText_jsonText hfits] at h
    exact ⟨hfits, (Except.ok.inj h).symm⟩
  · rw [hread] at h
    cases h

/-- **A finite literal is read back bit for bit**, and no other is. A tree that is read back at all is
the tree that was written: it is the same to `Tree.same`, to rendering and to evaluation. -/
theorem ofJson_toJson_faithful (F : Format) :
    (∀ x : Number F, ofJson F (Tree.num x).toJson = .ok (.num x) ↔ x.isInfinite = false) ∧
    ∀ t u : Tree F, ofJson F t.toJson = .ok u →
      u = t ∧ u.same t ∧ u.render = t.render ∧ u.eval = t.eval := by
  constructor
  · intro x
    constructor
    · exact fun h => (fits_of_ofJson_toJson h).1.1 x (List.mem_singleton_self x)
    · intro hx
      have hfits : (Tree.num x).Fits Json.maxOpenBrackets :=
        ⟨fun y hy => List.mem_singleton.mp hy ▸ hx, show 1 ≤ 127 by decide⟩
      unfold ofJson
      rw [toList_toJson]
      exact Json.readText_jsonText hfits
  · intro t u h
    obtain ⟨-, rfl⟩ := fits_of_ofJson_toJson h
    exact ⟨rfl, same_refl u, rfl, rfl⟩

/-- The largest finite number of `binary32` is read back, and evaluates to itself. -/
theorem ofJson_toJson_faithful_largest :
    ∃ u, ofJson .binary32 (Tree.num (F := .binary32) ⟨false, 0x7f7fffff, by decide⟩).toJson
      = .ok u ∧ u.eval = .number ⟨false, 0x7f7fffff, by decide⟩ := by
  have hread := ((ofJson_toJson_faithful .binary32).1 ⟨false, 0x7f7fffff, by decide⟩).mpr (by decide)
  exact ⟨_, hread, ((ofJson_toJson_faithful .binary32).2 _ _ hread).2.2.2⟩

end Tree

end ArithTree
