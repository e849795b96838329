import ArithTree.Proofs.Json.CutNumeral

/-!
# Texts of trees that are cut short, or go on

The text of a tree says itself where it ends. Cut short anywhere, in a name, in a numeral or between two
tokens, it is refused for its early end and not for anything that stands in it; and behind its end only
blanks may stand.

The induction is on the tree, for every number of brackets that are left. A node is read as far as its text
goes (`readTree_entry_unfinished`), if each prefix of its content is read to its end or lacks something
(`Unfinished`): behind an operand that is read to its end a comma or a bracket is missing.

* `Json.readTree_isPrefix`: a prefix of the text of a tree lacks something.
* `Tree.toJson_self_delimiting`: what becomes of texts that are cut short, and of those that go on.
-/

namespace ArithTree

variable {F : Format}

namespace Json

variable {p : List Char} {kind : NodeKind} {n : Nat}

/-! ## Nodes -/

/-- Behind a name, or in it, the quote is missing. -/
theorem readKind_isPrefix (hp : p <+: kind.name) : readKind p = .error .truncated :=
  bind_eq_error_iff.mpr (Or.inl (Quoted.read_unfinished fun c hc => plain_name kind c (hp.subset hc)))

/-- A node that is cut short in front of its content. -/
theorem readTree_isPrefix_opening (F : Format) (n : Nat) (hp : p <+: opening kind)
    (hne : p ≠ opening kind) : readTree F (n + 1) p = .error .truncated := by
  rcases List.prefix_cons_iff.mp hp with rfl | ⟨s, rfl, hs⟩
  · rw [readTree_succ]
    rfl
  refine (readTree_brace blank_nil n s).trans ?_
  rw [List.cons_append, List.cons_append, List.append_assoc] at hs
  rcases List.prefix_cons_iff.mp hs with rfl | ⟨q, rfl, hq⟩
  · rfl
  have hquote : expect '"' ('"' :: q) = .ok q := expect_cons rfl q
  refine bind_eq_error_iff.mpr (Or.inr ⟨q, hquote, ?_⟩)
  rcases prefix_append_cases hq with hname | ⟨u, rfl, hu⟩
  · exact bind_eq_error_iff.mpr (Or.inl (readKind_isPrefix hname))
  rw [List.singleton_append] at hu
  rcases List.prefix_cons_iff.mp hu with rfl | ⟨r, rfl, hr⟩
  · rw [List.append_nil]
    exact bind_eq_error_iff.mpr (Or.inl (readKind_isPrefix (List.prefix_refl _)))
  rcases prefix_singleton_cases hr with rfl | rfl
  · have hkind : readKind (kind.name ++ ['"']) = .ok (kind, []) :=
      readKind_eq_ok_iff.mpr ⟨kind.name, spells_name kind, rfl⟩
    exact bind_eq_error_iff.mpr (Or.inr ⟨_, hkind, rfl⟩)
  · exact absurd (by simp [opening]) hne

/-- Behind a content that is read to its end the closing brace is missing. -/
theorem readBody_unfinished (h : Unfinished (readContent F n kind) p) :
    readBody F n kind p = .error .truncated := by
  rcases h with h | ⟨t, h⟩
  · exact bind_eq_error_iff.mpr (Or.inl h)
  · exact bind_eq_error_iff.mpr (Or.inr ⟨_, h, bind_eq_error_iff.mpr (Or.inl rfl)⟩)

/-- **A node that is cut short lacks something**, if its content read to its end does. -/
theorem readTree_entry_unfinished {content : List Char}
    (hcontent : ∀ q, q <+: content → Unfinished (readContent F n kind) q)
    (hp : p <+: entry kind content) (hne : p ≠ entry kind content) :
    readTree F (n + 1) p = .error .truncated := by
  have hbehind (q : List Char) (hq : q <+: content) :
      readTree F (n + 1) (opening kind ++ q) = .error .truncated :=
    (readTree_of_opens (opens_opening kind q)).trans (readBody_unfinished (hcontent q hq))
  rw [entry_eq, List.append_assoc] at hp hne
  rcases prefix_append_cases hp with hp | ⟨q, rfl, hq⟩
  · by_cases hopening : p = opening kind
    · have hread := hbehind [] List.nil_prefix
      rwa [List.append_nil, ← hopening] at hread
    · exact readTree_isPrefix_opening F n hp hopening
  · rcases prefix_append_cases hq with hq | ⟨r, rfl, hr⟩
    · exact hbehind q hq
    · rcases prefix_singleton_cases hr with rfl | rfl
      · rw [List.append_nil]
        exact hbehind content (List.prefix_refl _)
      · exact absurd rfl hne

/-! ## Contents -/

/-- What is made of the value makes no difference. -/
theorem Unfinished.map {α β : Type} {read : Reader α} (f : α → β) (h : Unfinished read p) :
    Unfinished (fun s => read s >>= fun ⟨a, rest⟩ => .ok (f a, rest)) p := by
  rcases h with h | ⟨a, h⟩
  · exact Or.inl (bind_eq_error_iff.mpr (Or.inl h))
  · exact Or.inr ⟨f a, bind_eq_ok_iff.mpr ⟨_, h, rfl⟩⟩

section Children

variable (op : Operation) {read : Reader (Tree F)} {s : List Char} {l r t : Tree F}

theorem head_of_isPrefix (hp : p <+: t.jsonText) : (skipBlanks p).head? ≠ some ']' := by
  obtain ⟨tail, htail⟩ : ∃ tail, t.jsonText = '\x7b' :: tail := by cases t <;> exact ⟨_, rfl⟩
  rcases List.prefix_cons_iff.mp (htail ▸ hp) with rfl | ⟨q, rfl, -⟩
  · exact fun h => nomatch h
  · exact fun h => nomatch h

/-- Behind the left operand a comma is missing. -/
theorem readChildren_left_unfinished (hs : (skipBlanks s).head? ≠ some ']')
    (h : Unfinished read s) : readChildren op (some read) ('[' :: s) = .error .truncated := by
  rcases h with h | ⟨l, h⟩
  · exact readChildren_left_error op hs h
  · refine (readChildren_bracket op blank_nil hs).trans ?_
    exact bind_eq_error_iff.mpr (Or.inr ⟨_, h, rfl⟩)

/-- Behind the right operand a bracket is missing. -/
theorem readChildren_right_unfinished {s₂ : List Char} (hs : (skipBlanks s).head? ≠ some ']')
    (hl : read s = .ok (l, ',' :: s₂)) (h : Unfinished read s₂) :
    readChildren op (some read) ('[' :: s) = .error .truncated := by
  rcases h with h | ⟨r, h⟩
  · exact readChildren_right_error op hs hl h
  · refine (readChildren_comma op blank_nil blank_nil hs hl).trans ?_
    exact bind_eq_error_iff.mpr (Or.inr ⟨_, h, rfl⟩)

/-- Two operands that are cut short, or read to their end. -/
theorem readContent_binary_unfinished (hl : l.Fits n) (hr : r.Fits n)
    (hleft : ∀ q, q <+: l.jsonText → Unfinished (readTree F n) q)
    (hright : ∀ q, q <+: r.jsonText → Unfinished (readTree F n) q)
    (hp : p <+: '[' :: l.jsonText ++ ',' :: r.jsonText ++ [']']) :
    Unfinished (readContent F (n + 1) (.binary op)) p := by
  have hchildren (h : readChildren op (some (readTree F n)) p = .error .truncated) :
      Unfinished (readContent F (n + 1) (.binary op)) p :=
    Or.inl (bind_eq_error_iff.mpr (Or.inl h))
  rw [List.cons_append, List.cons_append, List.append_assoc] at hp
  rcases List.prefix_cons_iff.mp hp with rfl | ⟨s, rfl, hs⟩
  · exact hchildren rfl
  rcases prefix_append_cases hs with hleftmost | ⟨u, rfl, hu⟩
  · have hhead := head_of_isPrefix hleftmost
    exact hchildren (readChildren_left_unfinished op hhead (hleft _ hleftmost))
  rw [List.cons_append] at hu
  rcases List.prefix_cons_iff.mp hu with rfl | ⟨s₂, rfl, hs₂⟩
  · rw [List.append_nil] at hchildren ⊢
    have hwhole := List.prefix_refl l.jsonText
    exact hchildren (readChildren_left_unfinished op (head_of_isPrefix hwhole) (hleft _ hwhole))
  have hhead := head_jsonText l (',' :: s₂)
  have hread := readTree_jsonText hl (',' :: s₂)
  rcases prefix_append_cases hs₂ with hrightmost | ⟨v, rfl, hv⟩
  · exact hchildren (readChildren_right_unfinished op hhead hread (hright _ hrightmost))
  rcases prefix_singleton_cases hv with rfl | rfl
  · rw [List.append_nil] at hhead hread hchildren ⊢
    have hwhole := hright _ (List.prefix_refl r.jsonText)
    exact hchildren (readChildren_right_unfinished op hhead hread hwhole)
  · have hpair := readChildren_append op blank_nil blank_nil blank_nil hhead hread
      (readTree_jsonText hr [']'])
    exact Or.inr ⟨.binary op l r, bind_eq_ok_iff.mpr ⟨_, hpair, rfl⟩⟩

end Children

/-! ## Trees -/

/-- A text that lacks something unless it is whole is read to its end, or lacks something. -/
theorem unfinished_readTree {t : Tree F} (hfits : t.Fits n)
    (h : ∀ q, q <+: t.jsonText → q ≠ t.jsonText → readTree F n q = .error .truncated)
    (hp : p <+: t.jsonText) : Unfinished (readTree F n) p := by
  by_cases hwhole : p = t.jsonText
  · have hread := readTree_jsonText hfits []
    rw [List.append_nil, ← hwhole] at hread
    exact Or.inr ⟨t, hread⟩
  · exact Or.inl (h p hp hwhole)

/-- **The text of a tree that is cut short lacks something.** -/
theorem readTree_isPrefix {t : Tree F} (hfits : t.Fits n) (hp : p <+: t.jsonText)
    (hne : p ≠ t.jsonText) : readTree F n p = .error .truncated := by
  induction t generalizing n p with
  | num x =>
    obtain ⟨m, rfl⟩ := Nat.exists_eq_add_of_le' (show 1 ≤ n from hfits.2)
    have hx := hfits.1 x (List.mem_singleton_self x)
    have hcontent (q : List Char) (hq : q <+: x.jsonText) : Unfinished (readContent F m .num) q :=
      (Number.unfinished_readLiteral hx hq).map Tree.num
    exact readTree_entry_unfinished hcontent hp hne
  | neg e ih =>
    obtain ⟨m, rfl, he⟩ := hfits.neg
    have hcontent (q : List Char) (hq : q <+: e.jsonText) : Unfinished (readContent F m .neg) q :=
      (unfinished_readTree he (fun _ => ih he) hq).map Tree.neg
    exact readTree_entry_unfinished hcontent hp hne
  | binary op l r ihl ihr =>
    obtain ⟨m, rfl, hl, hr⟩ := hfits.binary
    have hleft (q : List Char) := unfinished_readTree (p := q) hl fun _ => ihl hl
    have hright (q : List Char) := unfinished_readTree (p := q) hr fun _ => ihr hr
    refine readTree_entry_unfinished (fun q hq => ?_) hp hne
    exact readContent_binary_unfinished op hl hr hleft hright hq

/-! ## The whole text -/

theorem readText_isPrefix {t : Tree F} (hfits : t.Fits maxOpenBrackets) (hp : p <+: t.jsonText)
    (hne : p ≠ t.jsonText) : readText F p = .error .truncated :=
  bind_eq_error_iff.mpr (Or.inl (readTree_isPrefix hfits hp hne))

theorem skipBlanks_eq_nil_iff : skipBlanks p = [] ↔ Blank p := by
  rw [skipBlanks, List.dropWhile_eq_nil_iff]
  rfl

/-- Only blanks may stand behind the text of a tree. -/
theorem readText_behind {t : Tree F} (hfits : t.Fits maxOpenBrackets) (rest : List Char) :
    readText F (t.jsonText ++ rest) =
      if skipBlanks rest == [] then .ok t else .error .malformed := by
  unfold readText
  rw [readTree_jsonText hfits rest]
  rfl

end Json

namespace Tree

/-- **The text of a tree says itself where it ends.** Let the literals be finite and no more than 127
brackets be open at once. Wherever the text is cut short, what is left is refused for ending too early, and
not as malformed or as a mismatch. The whole text is read as the tree, and so is the text with blanks behind
it; with anything else behind it it is refused as malformed. -/
theorem toJson_self_delimiting (t : Tree F) (hfinite : ∀ x ∈ t.literals, x.isInfinite = false)
    (hnesting : t.nesting ≤ 127) :
    (∀ p : String, p.toList <+: t.toJson.toList → p ≠ t.toJson →
      ofJson F p = .error .truncated) ∧
    ofJson F t.toJson = .ok t ∧
    ∀ u : String,
      ((∀ c ∈ u.toList, Json.isBlank c) → ofJson F (t.toJson ++ u) = ofJson F t.toJson) ∧
      (¬ (∀ c ∈ u.toList, Json.isBlank c) → ofJson F (t.toJson ++ u) = .error .malformed) := by
  have hfits : t.Fits Json.maxOpenBrackets := ⟨hfinite, hnesting⟩
  have hwhole : ofJson F t.toJson = .ok t := by
    unfold ofJson
    rw [toList_toJson]
    exact Json.readText_jsonText hfits
  have hbehind (u : String) : ofJson F (t.toJson ++ u) =
      if Json.skipBlanks u.toList == [] then .ok t else .error .malformed := by
    unfold ofJson
    rw [String.toList_append, toList_toJson]
    exact Json.readText_behind hfits u.toList
  refine ⟨fun p hp hne => ?_, hwhole, fun u => ⟨fun hblank => ?_, fun hblank => ?_⟩⟩
  · unfold ofJson
    rw [toList_toJson] at hp
    refine Json.readText_isPrefix hfits hp fun heq => hne (String.toList_inj.mp ?_)
    rw [heq, toList_toJson]
  · rw [hbehind, hwhole]
    exact if_pos (beq_iff_eq.mpr (Json.skipBlanks_eq_nil_iff.mpr hblank))
  · rw [hbehind]
    exact if_neg fun h => hblank (Json.skipBlanks_eq_nil_iff.mp (beq_iff_eq.mp h))

/-- Cut behind the point, behind a zero that is a numeral of its own, and in a name; and with a line break
and a brace behind the whole. -/
theorem toJson_self_delimiting_minus_zero :
    let t : Tree .binary64 := .neg (.num (.zero true))
    (∀ x ∈ t.literals, x.isInfinite = false) ∧ t.nesting ≤ 127 ∧
    ofJson .binary64 "\x7b\"Neg\":\x7b\"Num\":-0." = .error .truncated ∧
    ofJson .binary64 "\x7b\"Neg\":\x7b\"Num\":-0" = .error .truncated ∧
    ofJson .binary64 "\x7b\"Neg\":\x7b\"Nu" = .error .truncated ∧
    ofJson .binary64 (t.toJson ++ "\n") = .ok t ∧
    ofJson .binary64 (t.toJson ++ "\x7d") = .error .malformed := by
  intro t
  have hfinite : ∀ x ∈ t.literals, x.isInfinite = false := by decide
  have hnesting : t.nesting ≤ 127 := by decide
  have htext : t.toJson = "\x7b\"Neg\":\x7b\"Num\":-0.0\x7d\x7d" := by decide +kernel
  have hblank : ∀ c ∈ "\n".toList, Json.isBlank c := List.all_eq_true.mp (by decide)
  have hbrace : ¬ ∀ c ∈ "\x7d".toList, Json.isBlank c :=
    fun h => absurd (h '\x7d' (by decide)) (by decide)
  obtain ⟨hcut, hwhole, hbehind⟩ := toJson_self_delimiting t hfinite hnesting
  rw [htext] at hcut
  refine ⟨hfinite, hnesting, hcut _ ?_ ?_, hcut _ ?_ ?_, hcut _ ?_ ?_,
    ((hbehind "\n").1 hblank).trans hwhole, (hbehind "\x7d").2 hbrace⟩
  all_goals decide

end Tree

end ArithTree
