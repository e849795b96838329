import ArithTree.Proofs.Tree.Leaves
import ArithTree.Proofs.Tree.Rendering

/-!
# Rendered trees are fully and minimally parenthesized

Every composite node is wrapped in exactly one pair of parentheses (`SPEC_FULL.md`, 4.1, render).
Counting does not show that parentheses match: `)(` has one of each. So rendered trees are looked at in
two ways.

* `Balanced`: in no prefix more parentheses are closed than have been opened, and in the whole none stays
  open. This is kept by putting texts side by side and by a pair of parentheses around a text, which is
  all that rendering does (`Tree.balanced_text`).
* `Tree.text_perm`: in some order, a rendered tree has the characters of its literals and, for every
  node, those that its kind adds (`NodeKind.frame`). All counts follow from this, as no literal has one of
  these characters but for its sign.

`render_parenthesized` has both, and that the parentheses of the root enclose all the rest.
-/

namespace ArithTree

variable {F : Format}

/-! ## Balanced texts -/

/-- No parenthesis is closed before it is opened, and none stays open. -/
structure Balanced (s : List Char) : Prop where
  prefixes : ∀ p, p <+: s → p.count ')' ≤ p.count '('
  whole : s.count '(' = s.count ')'

namespace Balanced

variable {s u v : List Char}

theorem of_flat (hopen : '(' ∉ s) (hclose : ')' ∉ s) : Balanced s where
  prefixes p hp := by
    rw [List.count_eq_zero.mpr fun h => hclose (hp.subset h)]
    exact Nat.zero_le _
  whole := by rw [List.count_eq_zero.mpr hopen, List.count_eq_zero.mpr hclose]

theorem append (hu : Balanced u) (hv : Balanced v) : Balanced (u ++ v) where
  prefixes p hp := by
    rcases prefix_append_cases hp with hp | ⟨q, rfl, hq⟩
    · exact hu.prefixes p hp
    · rw [List.count_append, List.count_append, hu.whole]
      exact Nat.add_le_add_left (hv.prefixes q hq) _
  whole := by rw [List.count_append, List.count_append, hu.whole, hv.whole]

/-- The parenthesis in front is open up to the one at the end. -/
theorem enclosed (hs : Balanced s) : Balanced ('(' :: s ++ [')']) where
  prefixes p hp := by
    rcases prefix_append_cases hp with hp | ⟨q, rfl, hq⟩
    · rcases List.prefix_cons_iff.mp hp with rfl | ⟨q, rfl, hq⟩
      · exact Nat.le_refl _
      · have hle := hs.prefixes q hq
        simp only [List.count_cons_self, List.count_cons_of_ne (by decide : '(' ≠ ')')]
        omega
    · have hle : q.count ')' ≤ 1 := hq.sublist.count_le ')'
      have hwhole := hs.whole
      simp only [List.cons_append, List.count_append, List.count_cons_self,
        List.count_cons_of_ne (by decide : '(' ≠ ')')]
      omega
  whole := by
    have hwhole := hs.whole
    simp only [List.cons_append, List.count_append, List.count_cons_self, List.count_nil,
      List.count_cons_of_ne (by decide : '(' ≠ ')'), List.count_cons_of_ne (by decide : ')' ≠ '(')]
    omega

end Balanced

/-! ## Literals -/

namespace Number

/-- Of the characters that nodes add, only a minus sign stands in the text of a number. -/
theorem notMem_text {c : Char} (hc : isTextChar c = false) (x : Number F) : c ∉ x.text := fun h =>
  Bool.eq_false_iff.mp hc (isTextChar_of_mem_text h)

theorem count_sign_text (x : Number F) : x.text.count '-' = if x.negative then 1 else 0 := by
  have hmagnitude := List.count_eq_zero.mpr x.sign_notMem_magnitudeText
  by_cases hx : x.negative
  · rw [text_of_negative hx, List.count_cons_self, hmagnitude, if_pos hx]
  · rw [text_of_not_negative hx, hmagnitude, if_neg hx]

end Number

/-! ## The characters of a rendered tree -/

/-- The characters that a node of this kind adds to the texts of its children. -/
def NodeKind.frame : NodeKind → List Char
  | .num => []
  | .binary op => ['(', ' ', op.symbol, ' ', ')']
  | .neg => ['(', '-', ')']

/-- Whether nodes of this kind have two children. -/
def NodeKind.isBinary : NodeKind → Bool
  | .binary _ => true
  | _ => false

namespace Tree

/-- The kinds of the nodes, each before those of its children. -/
def kinds : Tree F → List NodeKind
  | .num _ => [.num]
  | .binary op l r => .binary op :: (l.kinds ++ r.kinds)
  | .neg e => .neg :: e.kinds

/-- The texts of the literals, one behind the other. -/
def literalText (t : Tree F) : List Char := t.literals.flatMap Number.text

/-- **A rendered tree has the characters of its literals and those that its nodes add.** -/
theorem text_perm (t : Tree F) : t.text.Perm (t.literalText ++ t.kinds.flatMap NodeKind.frame) := by
  unfold literalText
  induction t with
  | num x => simp [text, literals, kinds, NodeKind.frame]
  | binary op l r ihl ihr =>
    refine List.perm_iff_count.mpr fun c => ?_
    have hl := ihl.count_eq c
    have hr := ihr.count_eq c
    simp only [text, literals, kinds, NodeKind.frame, List.flatMap_append, List.flatMap_cons,
      List.count_append, List.count_cons, List.count_nil] at hl hr ⊢
    omega
  | neg e ih =>
    refine List.perm_iff_count.mpr fun c => ?_
    have he := ih.count_eq c
    simp only [text, literals, kinds, NodeKind.frame, List.flatMap_cons, List.count_append,
      List.count_cons, List.count_nil] at he ⊢
    omega

theorem notMem_literalText {c : Char} (hc : Number.isTextChar c = false) (t : Tree F) :
    c ∉ t.literalText := by
  intro h
  obtain ⟨x, -, hx⟩ := List.mem_flatMap.mp h
  exact x.notMem_text hc hx

theorem count_sign_literalText (t : Tree F) :
    t.literalText.count '-' = t.literals.countP (·.negative) := by
  unfold literalText
  induction t.literals with
  | nil => rfl
  | cons x xs ih => rw [List.flatMap_cons, List.count_append, x.count_sign_text, ih, List.countP_cons,
      Nat.add_comm]

/-- Characters that no literal has are counted in what the nodes add. -/
theorem count_text {c : Char} (hc : Number.isTextChar c = false) (t : Tree F) :
    t.text.count c = (t.kinds.flatMap NodeKind.frame).count c := by
  rw [t.text_perm.count_eq, List.count_append, List.count_eq_zero.mpr (t.notMem_literalText hc),
    Nat.zero_add]

end Tree

/-! ## What nodes add -/

section Frames

variable (kinds : List NodeKind)

/-- What all nodes add is counted kind by kind. -/
theorem count_frames {c : Char} {p : NodeKind → Bool}
    (hp : ∀ kind : NodeKind, kind.frame.count c = if p kind then 1 else 0) :
    (kinds.flatMap NodeKind.frame).count c = kinds.countP p := by
  induction kinds with
  | nil => rfl
  | cons kind kinds ih =>
    rw [List.flatMap_cons, List.count_append, hp, ih, List.countP_cons, Nat.add_comm]

theorem length_frames : (kinds.flatMap NodeKind.frame).length
    = 5 * kinds.countP NodeKind.isBinary + 3 * kinds.count .neg := by
  induction kinds with
  | nil => rfl
  | cons kind kinds ih =>
    rw [List.flatMap_cons, List.length_append, ih, List.countP_cons, List.count_cons]
    rcases kind with _ | op | _
    · simp [NodeKind.frame, NodeKind.isBinary]
    · simp [NodeKind.frame, NodeKind.isBinary]
      omega
    · simp [NodeKind.frame, NodeKind.isBinary]
      omega

theorem count_symbol_frame (op : Operation) (kind : NodeKind) :
    kind.frame.count op.symbol = if kind == .binary op then 1 else 0 := by
  rcases kind with _ | (_ | _) | _ <;> cases op <;> rfl

theorem count_sign_frame (kind : NodeKind) :
    kind.frame.count '-' = if kind == .neg then 1 else 0 := by
  rcases kind with _ | (_ | _) | _ <;> rfl

theorem count_open_frame (kind : NodeKind) :
    kind.frame.count '(' = if kind != .num then 1 else 0 := by
  rcases kind with _ | (_ | _) | _ <;> rfl

end Frames

/-! ## The parentheses of a tree -/

theorem Operation.isTextChar_symbol (op : Operation) : Number.isTextChar op.symbol = false := by
  cases op <;> rfl

namespace Tree

/-- What stands between the operands of an operation has no parenthesis. -/
theorem balanced_symbol (op : Operation) : Balanced [' ', op.symbol, ' '] := by
  cases op <;> exact .of_flat (by decide) (by decide)

theorem balanced_literal (x : Number F) : Balanced x.text :=
  .of_flat (x.notMem_text rfl) (x.notMem_text rfl)

/-- **The parentheses of a rendered tree match**, and if there are any, the first and the last one enclose
all the rest. -/
theorem balanced_text (t : Tree F) : Balanced t.text ∧
    (t.isLiteral = false → ∃ inner, t.text = '(' :: inner ++ [')'] ∧ Balanced inner) := by
  induction t with
  | num x => exact ⟨balanced_literal x, fun h => nomatch h⟩
  | binary op l r ihl ihr =>
    have hinner := (ihl.1.append (balanced_symbol op)).append ihr.1
    have htext : (binary op l r).text = '(' :: (l.text ++ [' ', op.symbol, ' '] ++ r.text) ++ [')'] := by
      simp [text]
    rw [htext]
    exact ⟨hinner.enclosed, fun _ => ⟨_, rfl, hinner⟩⟩
  | neg e ih =>
    have hsign : Balanced ['-'] := .of_flat (by decide) (by decide)
    have hinner := hsign.append ih.1
    exact ⟨hinner.enclosed, fun _ => ⟨_, rfl, hinner⟩⟩

theorem toList_render (t : Tree F) : t.render.toList = t.text := by
  rw [render_eq, String.toList_ofList]

/-- Only the text of a composite tree has parentheses. -/
theorem isLiteral_iff (t : Tree F) : t.isLiteral ↔ '(' ∉ t.text ∧ ')' ∉ t.text := by
  cases h : t.isLiteral with
  | true =>
    cases t with
    | num x => exact iff_of_true rfl ⟨x.notMem_text rfl, x.notMem_text rfl⟩
    | binary op l r => cases h
    | neg e => cases h
  | false =>
    obtain ⟨inner, htext, -⟩ := t.balanced_text.2 h
    refine iff_of_false Bool.false_ne_true fun hnone => hnone.1 ?_
    rw [htext]
    exact List.mem_cons_self ..

end Tree

/-- **Every composite node has one pair of parentheses, and literals have none.** The parentheses of a
rendered tree are balanced and as many as its composite nodes; those of a composite root are the first
and the last character and match each other. Every operation has its symbol once, every sign change its
minus sign besides those of the negative literals, and beyond the texts of the literals there are five
characters for every operation and three for every sign change. -/
theorem render_parenthesized (t : Tree F) :
    let s := t.render.toList
    Balanced s ∧ s.count '(' = t.kinds.countP (· != .num) ∧
    (t.isLiteral ↔ '(' ∉ s ∧ ')' ∉ s) ∧
    (t.isLiteral = false ↔ ∃ inner, s = '(' :: inner ++ [')'] ∧ Balanced inner) ∧
    s.count '+' = t.kinds.count (.binary .add) ∧ s.count '*' = t.kinds.count (.binary .mul) ∧
    s.count '-' = t.kinds.count .neg + t.literals.countP (·.negative) ∧
    t.render.length
      = t.literalText.length + 5 * t.kinds.countP NodeKind.isBinary + 3 * t.kinds.count .neg := by
  intro s
  have hs : s = t.text := t.toList_render
  have hsymbol (op : Operation) : s.count op.symbol = t.kinds.count (.binary op) := by
    rw [hs, t.count_text op.isTextChar_symbol]
    exact count_frames t.kinds (count_symbol_frame op)
  refine ⟨hs ▸ t.balanced_text.1, ?_, hs ▸ t.isLiteral_iff, ⟨?_, ?_⟩, hsymbol .add, hsymbol .mul, ?_, ?_⟩
  · rw [hs, t.count_text rfl]
    exact count_frames t.kinds count_open_frame
  · rw [hs]
    exact t.balanced_text.2
  · rintro ⟨inner, hinner, -⟩
    refine Bool.eq_false_iff.mpr fun hliteral => (t.isLiteral_iff.mp hliteral).1 ?_
    rw [← hs, hinner]
    exact List.mem_cons_self ..
  · rw [hs, t.text_perm.count_eq, List.count_append, t.count_sign_literalText, Nat.add_comm]
    exact congrArg (· + _) (count_frames t.kinds count_sign_frame)
  · rw [← String.length_toList, t.toList_render, t.text_perm.length_eq, List.length_append, length_frames,
      Nat.add_assoc]

/-- A negative number takes its sign, but no parentheses. -/
example :
    (Tree.neg (.binary .mul (.num (.ofInt .binary64 (-2))) (.num (.zero true)))).render
      = "(-(-2 * -0))" := by
  decide +kernel

end ArithTree
