import ArithTree.Json.Reading
import ArithTree.Json.Writing
import ArithTree.Proofs.Json.Grammar

/-!
# The texts that are read as trees

The reader takes a text from the left and the grammar describes it as a whole, with the layout of A.5 of
`SPEC_FULL.md`. Here both are brought together: what the reader takes from the front of a text derives
the tree that it gives (`derives_of_readTree`), and a text of a tree is read to its end, whatever stands
behind it (`readTree_append`). The number of brackets that the reader may still open is the nesting that
the tree may still have; as it is passed on by value, nothing has to be restored behind a bracket.

* `Tree.ofJson_eq_ok_iff`: a text is accepted exactly if it is one of a tree within the bound on open
  brackets.
* `Json.IsTree.unique`: a text is one of at most one tree.
-/

namespace ArithTree

variable {F : Format}

namespace Json

variable {s rest : List Char} {n : Nat} {kind : NodeKind} {t : Tree F}

/-- The numeral is in the range of the format `G`, and is read as this number. -/
def Numeral.Denotes (G : Format) (n : Numeral) (x : Number F) : Prop :=
  (n.round G).isInfinite = false ∧ n.round F = x

/-! ## Blanks -/

theorem skipBlanks_append {w : List Char} (hw : Blank w) (s : List Char) :
    skipBlanks (w ++ s) = skipBlanks s :=
  List.dropWhile_append_of_pos hw

theorem skipBlanks_append_cons {w : List Char} (hw : Blank w) {c : Char} (hc : isBlank c = false)
    (s : List Char) : skipBlanks (w ++ c :: s) = c :: s := by
  rw [skipBlanks_append hw, skipBlanks_cons hc]

/-- What is skipped is blank. -/
theorem exists_blank_append (s : List Char) : ∃ w, Blank w ∧ s = w ++ skipBlanks s :=
  ⟨s.takeWhile isBlank, fun _ hc => List.mem_takeWhile_imp hc,
    List.takeWhile_append_dropWhile.symm⟩

theorem expect_append {c : Char} (hc : isBlank c = false) {w : List Char} (hw : Blank w)
    (s : List Char) : expect c (w ++ c :: s) = .ok s := by
  unfold expect
  rw [skipBlanks_append_cons hw hc]
  exact if_pos rfl

theorem exists_of_expect {c : Char} (h : expect c s = .ok rest) :
    ∃ w, Blank w ∧ s = w ++ c :: rest := by
  obtain ⟨w, hw, hs⟩ := exists_blank_append s
  unfold expect at h
  split at h
  · cases h
  · rename_i d tail hskip
    split at h
    · rename_i hd
      cases h
      rw [hskip, hd] at hs
      exact ⟨w, hw, hs⟩
    · cases h

/-! ## Literals and names -/

theorem Numeral.toNumber?_eq_some_iff {n : Numeral} {x : Number F} :
    n.toNumber? F = some x ↔ n.Denotes F x := by
  unfold toNumber? Denotes
  cases hfinite : (n.round F).isInfinite with
  | true => simp
  | false => simp

theorem isBlank_of_isTextChar {c : Char} (h : Numeral.isTextChar c) : isBlank c = false := by
  refine Bool.eq_false_iff.mpr fun hc => ?_
  simp only [isBlank, Bool.or_eq_true, beq_iff_eq] at hc
  rcases hc with ((rfl | rfl) | rfl) | rfl <;> cases h

/-- A numeral starts as one, and not with a blank. -/
theorem Numeral.Spells.starts {text : List Char} {n : Numeral} (h : n.Spells text)
    (rest : List Char) :
    Numeral.starts (text ++ rest) ∧ skipBlanks (text ++ rest) = text ++ rest := by
  have hhead : ∃ c tail, text = c :: tail ∧ (c == '-' || c.isDigit) := by
    obtain ⟨negative, hwhole, hfraction, hexponent⟩ := h
    rw [List.append_assoc, List.append_assoc]
    cases negative with
    | true => exact ⟨'-', _, rfl, rfl⟩
    | false =>
      obtain ⟨c, tail, rfl, hc⟩ := hwhole.head_isDigit
      exact ⟨c, _, rfl, Bool.or_eq_true_iff.mpr (Or.inr hc)⟩
  obtain ⟨c, tail, rfl, hc⟩ := hhead
  exact ⟨hc, skipBlanks_cons (isBlank_of_isTextChar (isTextChar_of_mem h (List.mem_cons_self ..))) _⟩

theorem readLiteral_append {w text : List Char} {n : Numeral} {x : Number F} (hw : Blank w)
    (hn : n.Spells text) (hx : n.Denotes F x) (hrest : Numeral.Ends rest) :
    readLiteral F (w ++ (text ++ rest)) = .ok (x, rest) := by
  obtain ⟨hstarts, hskip⟩ := hn.starts rest
  unfold readLiteral
  rw [skipBlanks_append hw, hskip]
  refine (if_pos hstarts).trans (bind_eq_ok_iff.mpr ⟨_, Numeral.read_append hn hrest, ?_⟩)
  simp only [Numeral.toNumber?_eq_some_iff.mpr hx]
  rfl

theorem exists_of_readLiteral {x : Number F} (h : readLiteral F s = .ok (x, rest)) :
    ∃ w text n, Blank w ∧ Numeral.Spells text n ∧ n.Denotes F x ∧ s = w ++ (text ++ rest) := by
  obtain ⟨w, hw, hs⟩ := exists_blank_append s
  unfold readLiteral at h
  dsimp only at h
  split at h
  · obtain ⟨⟨n, rest'⟩, hread, hvalue⟩ := bind_eq_ok_iff.mp h
    obtain ⟨text, hn, hskip⟩ := Numeral.spells_of_read hread
    dsimp only at hvalue
    split at hvalue
    · rename_i y hy
      cases hvalue
      rw [hskip] at hs
      exact ⟨w, text, n, hw, hn, Numeral.toNumber?_eq_some_iff.mp hy, hs⟩
    · cases hvalue
  · obtain ⟨_, _, herror⟩ := bind_eq_ok_iff.mp h
    cases herror

theorem liftMismatch_eq_ok_iff {α : Type} {x : Except Mismatch α} {a : α} :
    liftMismatch x = .ok a ↔ x = .ok a := by
  cases x with
  | ok b => simp [liftMismatch]
  | error m => simp [liftMismatch]

theorem readKind_eq_ok_iff : readKind s = .ok (kind, rest) ↔
    ∃ raw, Quoted.Spells raw kind.name ∧ s = raw ++ '"' :: rest := by
  constructor
  · intro h
    obtain ⟨⟨name, rest'⟩, hread, hname⟩ := bind_eq_ok_iff.mp h
    obtain ⟨kind', hkind, heq⟩ := bind_eq_ok_iff.mp hname
    cases heq
    obtain rfl := NodeKind.ofName_eq_ok_iff.mp (liftMismatch_eq_ok_iff.mp hkind)
    exact Quoted.read_eq_ok_iff.mp hread
  · intro h
    refine bind_eq_ok_iff.mpr ⟨_, Quoted.read_eq_ok_iff.mpr h, ?_⟩
    refine bind_eq_ok_iff.mpr ⟨kind, ?_, rfl⟩
    exact liftMismatch_eq_ok_iff.mpr (NodeKind.ofName_eq_ok_iff.mpr rfl)

/-! ## One node -/

/-- The reader of an operand of a binary node, when the node itself has `n` brackets left. -/
def childReader (F : Format) : Nat → Option (Reader (Tree F))
  | 0 => none
  | n + 1 => some (readTree F n)

/-- Reads the content of a node, behind whose brace `n` brackets are left. -/
def readContent (F : Format) (n : Nat) : NodeKind → Reader (Tree F)
  | .num, s => do
    let (x, rest) ← readLiteral F s
    return (.num x, rest)
  | .neg, s => do
    let (e, rest) ← readTree F n s
    return (.neg e, rest)
  | .binary op, s => do
    let ((left, right), rest) ← readChildren op (childReader F n) s
    return (.binary op left right, rest)

/-- Reads the content of a node and the brace behind it. -/
def readBody (F : Format) (n : Nat) (kind : NodeKind) : Reader (Tree F) := fun s => do
  let (t, rest) ← readContent F n kind s
  return (t, ← expect '\x7d' rest)

/-- The text opens a node of this kind, and goes on behind the colon. -/
inductive Opens (kind : NodeKind) (after : List Char) : List Char → Prop
  | brace {w raw name : List Char} (hw : Blank w) (hraw : Quoted.Spells raw kind.name)
      (hname : Padded ('"' :: raw ++ ['"']) name) :
      Opens kind after (w ++ '\x7b' :: (name ++ ':' :: after))

theorem readTree_succ (F : Format) (n : Nat) :
    readTree F (n + 1) = readNode (some (readTree F n)) (childReader F n) := by
  cases n <;> rfl

theorem readTree_zero_ne_ok : readTree F 0 s ≠ .ok (t, rest) := by
  intro h
  unfold readTree readNode at h
  split at h
  · cases h
  · obtain ⟨_, _, herror⟩ := bind_eq_ok_iff.mp h
    cases herror
  · cases h
  · cases h

/-- Behind the brace of a node its name is read, a colon, and the rest of the node. -/
theorem readTree_brace {w : List Char} (hw : Blank w) (n : Nat) (s : List Char) :
    readTree F (n + 1) (w ++ '\x7b' :: s) = (do
      let (kind, rest) ← readKind (← expect '"' s)
      readBody F n kind (← expect ':' rest)) := by
  rw [readTree_succ]
  unfold readNode
  rw [skipBlanks_append_cons hw rfl]
  refine bind_congr fun s₁ => bind_congr fun ⟨kind, s₂⟩ => bind_congr fun s₃ => ?_
  cases kind <;> simp only [readBody, readContent, bind_assoc, pure_bind]

/-- Behind the opening of a node its content is read, and the brace. -/
theorem readTree_of_opens {after : List Char} (h : Opens kind after s) :
    readTree F (n + 1) s = readBody F n kind after := by
  obtain @⟨w, raw, name, hw, hraw, @⟨w₁, w₂, hw₁, hw₂⟩⟩ := h
  have hquote : expect '"' (w₁ ++ ('"' :: raw ++ ['"']) ++ w₂ ++ ':' :: after)
      = .ok (raw ++ '"' :: (w₂ ++ ':' :: after)) := by
    simpa using expect_append (c := '"') rfl hw₁ (raw ++ '"' :: (w₂ ++ ':' :: after))
  have hkind : readKind (raw ++ '"' :: (w₂ ++ ':' :: after)) = .ok (kind, w₂ ++ ':' :: after) :=
    readKind_eq_ok_iff.mpr ⟨raw, hraw, rfl⟩
  have hcolon : expect ':' (w₂ ++ ':' :: after) = .ok after := expect_append rfl hw₂ after
  simp only [readTree_brace hw, hquote, hkind, hcolon, bind, Except.bind]

/-- Only what opens a node is read as a tree. -/
theorem exists_opens_of_readTree (h : readTree F (n + 1) s = .ok (t, rest)) :
    ∃ kind after, Opens kind after s ∧ readBody F n kind after = .ok (t, rest) := by
  obtain ⟨w, hw, hs⟩ := exists_blank_append s
  have hnode := h
  rw [readTree_succ] at hnode
  unfold readNode at hnode
  split at hnode
  · cases hnode
  · obtain ⟨_, _, herror⟩ := bind_eq_ok_iff.mp hnode
    cases herror
  · rename_i tail hskip
    rw [hs, hskip, readTree_brace hw] at h
    obtain ⟨s₁, hquote, h₁⟩ := bind_eq_ok_iff.mp h
    obtain ⟨⟨kind, s₂⟩, hkind, h₂⟩ := bind_eq_ok_iff.mp h₁
    obtain ⟨s₃, hcolon, hbody⟩ := bind_eq_ok_iff.mp h₂
    obtain ⟨w₁, hw₁, rfl⟩ := exists_of_expect hquote
    obtain ⟨raw, hraw, rfl⟩ := readKind_eq_ok_iff.mp hkind
    obtain ⟨w₂, hw₂, rfl⟩ := exists_of_expect hcolon
    have hopens : Opens kind s₃ _ := .brace hw hraw (.blanks hw₁ hw₂)
    refine ⟨kind, s₃, ?_, hbody⟩
    rw [hs, hskip]
    simpa using hopens
  · cases hnode

/-- What opens a node, a content and the brace behind it are the entry of the node. -/
theorem Opens.entry {content body : List Char} (h : Opens kind (body ++ '\x7d' :: rest) s)
    (hbody : Padded content body) :
    ∃ w core, Blank w ∧ Entry kind content core ∧ s = w ++ (core ++ rest) := by
  obtain ⟨hw, hraw, hname⟩ := h
  exact ⟨_, _, hw, .braces hraw hname hbody, by simp⟩

theorem Entry.opens {w content core : List Char} (h : Entry kind content core) (hw : Blank w)
    (rest : List Char) :
    ∃ body, Padded content body ∧ Opens kind (body ++ '\x7d' :: rest) (w ++ (core ++ rest)) := by
  obtain @⟨raw, name, body, hraw, hname, hbody⟩ := h
  have hopens : Opens kind (body ++ '\x7d' :: rest) _ := .brace hw hraw hname
  exact ⟨body, hbody, by simpa using hopens⟩

theorem readBody_eq_ok_iff : readBody F n kind s = .ok (t, rest) ↔
    ∃ w, Blank w ∧ readContent F n kind s = .ok (t, w ++ '\x7d' :: rest) := by
  constructor
  · intro h
    obtain ⟨⟨t', s'⟩, hcontent, hend⟩ := bind_eq_ok_iff.mp h
    obtain ⟨rest', hbrace, heq⟩ := bind_eq_ok_iff.mp hend
    cases heq
    obtain ⟨w, hw, rfl⟩ := exists_of_expect hbrace
    exact ⟨w, hw, hcontent⟩
  · rintro ⟨w, hw, hcontent⟩
    refine bind_eq_ok_iff.mpr ⟨_, hcontent, bind_eq_ok_iff.mpr ⟨rest, ?_, rfl⟩⟩
    exact expect_append rfl hw rest

/-! ## Two operands -/

section Children

variable {read : Reader (Tree F)} {l r : Tree F}

theorem exists_of_readChildren {op : Operation} {child : Option (Reader (Tree F))}
    (h : readChildren op child s = .ok ((l, r), rest)) :
    ∃ read w s₁ w₁ s₂ w₂, child = some read ∧ Blank w ∧ Blank w₁ ∧ Blank w₂ ∧
      s = w ++ '[' :: s₁ ∧ read s₁ = .ok (l, w₁ ++ ',' :: s₂) ∧
        read s₂ = .ok (r, w₂ ++ ']' :: rest) := by
  obtain ⟨w, hw, hs⟩ := exists_blank_append s
  unfold readChildren at h
  split at h
  · rename_i s₁ hskip
    split at h
    · cases h
    · rename_i read
      dsimp only at h
      split at h
      · cases h
      · obtain ⟨⟨l', rest₁⟩, hl, h₁⟩ := bind_eq_ok_iff.mp h
        dsimp only at h₁
        split at h₁
        · cases h₁
        · obtain ⟨s₂, hcomma, h₂⟩ := bind_eq_ok_iff.mp h₁
          obtain ⟨⟨r', rest₂⟩, hr, h₃⟩ := bind_eq_ok_iff.mp h₂
          obtain ⟨rest', hclose, heq⟩ := bind_eq_ok_iff.mp h₃
          cases heq
          obtain ⟨w₁, hw₁, rfl⟩ := exists_of_expect hcomma
          obtain ⟨w₂, hw₂, rfl⟩ := exists_of_expect hclose
          exact ⟨read, w, s₁, w₁, s₂, w₂, rfl, hw, hw₁, hw₂, hskip ▸ hs, hl, hr⟩
  · obtain ⟨_, _, herror⟩ := bind_eq_ok_iff.mp h
    cases herror

/-- Behind a bracket the operands are read one after the other, unless it is closed at once. -/
theorem readChildren_bracket (op : Operation) {w s : List Char} (hw : Blank w)
    (hs : (skipBlanks s).head? ≠ some ']') :
    readChildren op (some read) (w ++ '[' :: s) = (do
      let (left, rest) ← read s
      if (skipBlanks rest).head? == some ']' then .error (.mismatch (.tooFew op 1))
      let (right, rest) ← read (← expect ',' rest)
      return ((left, right), ← expect ']' rest)) := by
  unfold readChildren
  rw [skipBlanks_append_cons hw rfl]
  exact if_neg fun h => hs (beq_iff_eq.mp h)

/-- Behind the left operand and a comma the right one is read. -/
theorem readChildren_comma (op : Operation) {w w₁ s₁ s₂ : List Char} (hw : Blank w)
    (hw₁ : Blank w₁) (hs₁ : (skipBlanks s₁).head? ≠ some ']')
    (hl : read s₁ = .ok (l, w₁ ++ ',' :: s₂)) :
    readChildren op (some read) (w ++ '[' :: s₁) = (do
      let (right, rest) ← read s₂
      return ((l, right), ← expect ']' rest)) := by
  have hcomma : (skipBlanks (w₁ ++ ',' :: s₂)).head? ≠ some ']' := by
    rw [skipBlanks_append_cons hw₁ rfl]
    exact fun h => nomatch h
  rw [readChildren_bracket op hw hs₁, hl]
  refine (if_neg fun h => hcomma (beq_iff_eq.mp h)).trans ?_
  rw [expect_append rfl hw₁]
  rfl

theorem readChildren_append (op : Operation) {w w₁ w₂ s₁ s₂ : List Char} (hw : Blank w)
    (hw₁ : Blank w₁) (hw₂ : Blank w₂) (hs₁ : (skipBlanks s₁).head? ≠ some ']')
    (hl : read s₁ = .ok (l, w₁ ++ ',' :: s₂)) (hr : read s₂ = .ok (r, w₂ ++ ']' :: rest)) :
    readChildren op (some read) (w ++ '[' :: s₁) = .ok ((l, r), rest) := by
  rw [readChildren_comma op hw hw₁ hs₁ hl]
  refine bind_eq_ok_iff.mpr ⟨_, hr, ?_⟩
  exact bind_eq_ok_iff.mpr ⟨rest, expect_append rfl hw₂ rest, rfl⟩

end Children

/-! ## Trees -/

theorem Opens.head (h : Opens kind rest s) : (skipBlanks s).head? ≠ some ']' := by
  obtain ⟨hw, hraw, hname⟩ := h
  rw [skipBlanks_append_cons hw rfl]
  exact fun heq => nomatch heq

/-- A node around a content that is read gives a text of the tree. -/
theorem derives_of_opens {L : Numeral → Number F → Prop} {content w w' : List Char}
    (hw : Blank w) (hw' : Blank w') (ht : ∀ core, Entry kind content core → Derives L core t)
    (hopens : Opens kind (w ++ (content ++ (w' ++ '\x7d' :: rest))) s) :
    ∃ w core, Blank w ∧ Derives L core t ∧ s = w ++ (core ++ rest) := by
  have hbody : w ++ (content ++ (w' ++ '\x7d' :: rest)) = w ++ content ++ w' ++ '\x7d' :: rest := by
    simp
  rw [hbody] at hopens
  obtain ⟨w₀, core, hw₀, hentry, hs⟩ := hopens.entry (.blanks hw hw')
  exact ⟨w₀, core, hw₀, ht core hentry, hs⟩

/-- **What is read as a tree derives it, and is not nested too deeply.** -/
theorem derives_of_readTree (h : readTree F n s = .ok (t, rest)) :
    t.nesting ≤ n ∧ ∃ w core, Blank w ∧ Derives (Numeral.Denotes F) core t ∧
      s = w ++ (core ++ rest) := by
  -- Strong induction, because the operands of a binary node are read with two brackets less.
  induction n using Nat.strong_induction_on generalizing s t rest with
  | _ n ih =>
    cases n with
    | zero => exact absurd h readTree_zero_ne_ok
    | succ n =>
      obtain ⟨kind, after, hopens, hbody⟩ := exists_opens_of_readTree h
      obtain ⟨w', hw', hcontent⟩ := readBody_eq_ok_iff.mp hbody
      clear h hbody
      cases kind with
      | num =>
        obtain ⟨⟨x, rest'⟩, hread, heq⟩ := bind_eq_ok_iff.mp hcontent
        cases heq
        obtain ⟨w, text, numeral, hw, hn, hx, rfl⟩ := exists_of_readLiteral hread
        refine ⟨by simp [Tree.nesting], ?_⟩
        exact derives_of_opens hw hw' (fun core hcore => .num hn hx hcore) hopens
      | neg =>
        obtain ⟨⟨e, rest'⟩, hread, heq⟩ := bind_eq_ok_iff.mp hcontent
        cases heq
        obtain ⟨hnesting, w, core, hw, he, rfl⟩ := ih n (Nat.lt_succ_self n) hread
        refine ⟨by simp only [Tree.nesting]; omega, ?_⟩
        exact derives_of_opens hw hw' (fun core hcore => .neg he hcore) hopens
      | binary op =>
        obtain ⟨⟨⟨l, r⟩, rest'⟩, hlr, heq⟩ := bind_eq_ok_iff.mp hcontent
        cases heq
        obtain ⟨read, w, s₁, w₁, s₂, w₂, hread, hw, hw₁, hw₂, rfl, hl, hr⟩ :=
          exists_of_readChildren hlr
        cases n with
        | zero => cases hread
        | succ n =>
          cases hread
          obtain ⟨hnl, wl, left, hwl, hleft, rfl⟩ := ih n (by omega) hl
          obtain ⟨hnr, wr, right, hwr, hright, rfl⟩ := ih n (by omega) hr
          refine ⟨by simp only [Tree.nesting]; omega, ?_⟩
          have hpair : Pair left right _ := .brackets (.blanks hwl hw₁) (.blanks hwr hw₂)
          exact derives_of_opens hw hw' (fun core hcore => .binary op hleft hright hpair hcore)
            (by simpa using hopens)

theorem ends_of_blank {w : List Char} (hw : Blank w) {c : Char} (hc : Numeral.continues c = false)
    (rest : List Char) : Numeral.Ends (w ++ c :: rest) := by
  intro d hd
  cases w with
  | nil =>
    cases hd
    exact hc
  | cons b w =>
    cases hd
    have hb := hw d (List.mem_cons_self ..)
    simp only [isBlank, Bool.or_eq_true, beq_iff_eq] at hb
    rcases hb with ((rfl | rfl) | rfl) | rfl <;> rfl

/-- A content that is read gives a node around it. -/
theorem readTree_of_entry {content w core : List Char} (hentry : Entry kind content core)
    (hw : Blank w) (hcontent : ∀ w w', Blank w → Blank w' →
      readContent F n kind (w ++ (content ++ (w' ++ '\x7d' :: rest)))
        = .ok (t, w' ++ '\x7d' :: rest)) :
    readTree F (n + 1) (w ++ (core ++ rest)) = .ok (t, rest) := by
  obtain ⟨body, hbody, hopens⟩ := hentry.opens hw rest
  obtain @⟨w₁, w₂, hw₁, hw₂⟩ := hbody
  rw [readTree_of_opens hopens, readBody_eq_ok_iff]
  refine ⟨w₂, hw₂, ?_⟩
  simpa using hcontent w₁ w₂ hw₁ hw₂

theorem Derives.head {L : Numeral → Number F → Prop} {w core : List Char} (h : Derives L core t)
    (hw : Blank w) (rest : List Char) : (skipBlanks (w ++ (core ++ rest))).head? ≠ some ']' := by
  obtain ⟨kind, content, hentry⟩ : ∃ kind content, Entry kind content core := by
    cases h with
    | num _ _ hentry => exact ⟨_, _, hentry⟩
    | binary _ _ _ _ hentry => exact ⟨_, _, hentry⟩
    | neg _ hentry => exact ⟨_, _, hentry⟩
  obtain ⟨body, -, hopens⟩ := hentry.opens hw rest
  exact hopens.head

/-- **A text of a tree is read as it, if there are brackets enough for it.** -/
theorem readTree_append {w core : List Char} (h : Derives (Numeral.Denotes F) core t)
    (hn : t.nesting ≤ n) (hw : Blank w) (rest : List Char) :
    readTree F n (w ++ (core ++ rest)) = .ok (t, rest) := by
  induction h generalizing n w rest with
  | num hnum hx hentry =>
    cases n with
    | zero => simp [Tree.nesting] at hn
    | succ n =>
      refine readTree_of_entry hentry hw fun w w' hw hw' => ?_
      have hread := readLiteral_append hw hnum hx (ends_of_blank (c := '\x7d') hw' rfl rest)
      exact bind_eq_ok_iff.mpr ⟨_, hread, rfl⟩
  | neg he hentry ih =>
    cases n with
    | zero => simp [Tree.nesting] at hn
    | succ n =>
      simp only [Tree.nesting] at hn
      refine readTree_of_entry hentry hw fun w w' hw hw' => ?_
      exact bind_eq_ok_iff.mpr ⟨_, ih (by omega) hw _, rfl⟩
  | @binary op left right content core l r hl hr hpair hentry ihl ihr =>
    match n with
    | 0 => simp [Tree.nesting] at hn
    | 1 =>
      simp only [Tree.nesting] at hn
      omega
    | n + 2 =>
      simp only [Tree.nesting] at hn
      refine readTree_of_entry hentry hw fun w w' hw hw' => ?_
      obtain ⟨@⟨wl, wl', hwl, hwl'⟩, @⟨wr, wr', hwr, hwr'⟩⟩ := hpair
      have hright := ihr (n := n) (by omega) hwr (wr' ++ ']' :: (w' ++ '\x7d' :: rest))
      have hleft := ihl (n := n) (by omega) hwl
        (wl' ++ ',' :: (wr ++ (right ++ (wr' ++ ']' :: (w' ++ '\x7d' :: rest)))))
      have hread := readChildren_append op hw hwl' hwr' (hl.head hwl _) hleft hright
      refine bind_eq_ok_iff.mpr ⟨((l, r), w' ++ '\x7d' :: rest), ?_, rfl⟩
      simpa [childReader] using hread

/-! ## Texts without blanks -/

theorem Padded.refl (core : List Char) : Padded core core := by
  have hpadded : Padded core ([] ++ core ++ []) := .blanks blank_nil blank_nil
  simpa using hpadded

/-- A name as it is written. -/
theorem plain_name (kind : NodeKind) :
    ∀ c ∈ kind.name, c ≠ '"' ∧ c ≠ '\\' ∧ ¬ c.toNat < 0x20 := by
  rcases kind with _ | (_ | _) | _ <;> simp [NodeKind.name]

theorem spells_name (kind : NodeKind) : Quoted.Spells kind.name kind.name :=
  Quoted.spells_self (plain_name kind)

/-- An entry as it is written. -/
theorem entry_written (kind : NodeKind) (content : List Char) :
    Entry kind content (entry kind content) := by
  have hbraces := Entry.braces (spells_name kind) (.refl _) (.refl content)
  simpa [entry] using hbraces

/-! ## Texts as a whole -/

/-- The text is one of the tree, with blanks around it. -/
def IsTree (Literal : Numeral → Number F → Prop) (s : List Char) (t : Tree F) : Prop :=
  ∃ core, Derives Literal core t ∧ Padded core s

/-- A text is one of at most one tree. -/
theorem IsTree.unique {u : Tree F} (ht : IsTree (Numeral.Denotes F) s t)
    (hu : IsTree (Numeral.Denotes F) s u) : t = u := by
  obtain ⟨core, hcore, @⟨w, w', hw, hw'⟩⟩ := ht
  obtain ⟨core', hcore', hpadded⟩ := hu
  generalize htext : w ++ core ++ w' = s at hpadded
  obtain @⟨v, v', hv, hv'⟩ := hpadded
  have hread := readTree_append hcore (le_max_left t.nesting u.nesting) hw w'
  have hread' := readTree_append hcore' (le_max_right t.nesting u.nesting) hv v'
  rw [← List.append_assoc, htext, List.append_assoc, hread'] at hread
  exact (congrArg Prod.fst (Except.ok.inj hread)).symm

theorem readText_eq_ok_iff : readText F s = .ok t ↔
    IsTree (Numeral.Denotes F) s t ∧ BracketsWithin maxOpenBrackets s := by
  constructor
  · intro h
    obtain ⟨⟨t', rest⟩, hread, hend⟩ := bind_eq_ok_iff.mp h
    dsimp only at hend
    split at hend
    · rename_i hrest
      cases hend
      obtain ⟨hn, w, core, hw, hcore, rfl⟩ := derives_of_readTree hread
      obtain ⟨w', hw', hrest'⟩ := exists_blank_append rest
      rw [beq_iff_eq.mp hrest, List.append_nil] at hrest'
      subst hrest'
      have hpadded : Padded core (w ++ (core ++ rest)) :=
        List.append_assoc w core rest ▸ .blanks hw hw'
      exact ⟨⟨core, hcore, hpadded⟩, (hcore.bracketsWithin_iff hpadded maxOpenBrackets).mpr hn⟩
    · cases hend
  · rintro ⟨⟨core, hcore, hpadded⟩, hwithin⟩
    have hn := (hcore.bracketsWithin_iff hpadded maxOpenBrackets).mp hwithin
    obtain @⟨w, w', hw, hw'⟩ := hpadded
    rw [List.append_assoc]
    refine bind_eq_ok_iff.mpr ⟨_, readTree_append hcore hn hw w', ?_⟩
    have hend : skipBlanks w' = [] := by
      simpa [skipBlanks] using skipBlanks_append hw' []
    exact if_pos (beq_iff_eq.mpr hend)

end Json

/-- **The texts that are accepted**: exactly those of a tree, with blanks between tokens and around
the whole, with numerals in the range of the format, and with no more than `maxOpenBrackets`
brackets open at once. Every other text is refused. -/
theorem Tree.ofJson_eq_ok_iff (F : Format) (s : String) :
    (∀ t : Tree F, ofJson F s = .ok t ↔
      Json.IsTree (Json.Numeral.Denotes F) s.toList t ∧
        Json.BracketsWithin Json.maxOpenBrackets s.toList) ∧
    ((∃ t, ofJson F s = .ok t) ∨ ∃ e, ofJson F s = .error e) := by
  refine ⟨fun t => Json.readText_eq_ok_iff, ?_⟩
  cases h : ofJson F s with
  | ok t => exact Or.inl ⟨t, rfl⟩
  | error e => exact Or.inr ⟨e, rfl⟩

/-- It does not suffice that numerals are in the range of `binary64`. Then the text of a node with `1e39`
would be one of the tree of an infinity of `binary32`; but there the numeral is out of range, and the
text is refused. -/
theorem Tree.ofJson_not_iff_of_binary64 :
    ¬ ∀ (F : Format) (s : String) (t : Tree F), ofJson F s = .ok t ↔
      Json.IsTree (Json.Numeral.Denotes .binary64) s.toList t ∧
        Json.BracketsWithin Json.maxOpenBrackets s.toList := by
  intro h
  have hone : Json.Numeral.Digits ['1'] := by simp [Json.Numeral.Digits]
  have hexponent : Json.Numeral.Digits ['3', '9'] := by simp [Json.Numeral.Digits]
  have hspells : Json.Numeral.Spells ['1', 'e', '3', '9'] ⟨false, 1, 39, false⟩ :=
    .parts false (.digits hone (by decide)) .none (.digits (Or.inl rfl) .none hexponent)
  have hround : Json.Numeral.round .binary32 ⟨false, 1, 39, false⟩ = .infinity false := by
    decide +kernel
  have hfinite : (Json.Numeral.round .binary64 ⟨false, 1, 39, false⟩).isInfinite = false := by
    decide +kernel
  have hderives : Json.Derives (Json.Numeral.Denotes .binary64) _ _ :=
    .num hspells ⟨hfinite, hround⟩ (Json.entry_written _ _)
  have hwithin := (hderives.bracketsWithin_iff (.refl _) Json.maxOpenBrackets).mpr (by decide)
  have haccepted := (h _ (String.ofList _) _).mpr
    (by rw [String.toList_ofList]; exact ⟨⟨_, hderives, .refl _⟩, hwithin⟩)
  obtain ⟨⟨core, hcore, -⟩, -⟩ := Json.readText_eq_ok_iff.mp haccepted
  cases hcore with
  | num _ hx _ =>
    obtain ⟨hrange, hinfinity⟩ := hx
    rw [hinfinity] at hrange
    cases hrange

end ArithTree
