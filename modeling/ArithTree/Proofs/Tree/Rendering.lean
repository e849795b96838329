import Mathlib.Data.List.Nodup
import ArithTree.Proofs.Binary.Text
import ArithTree.Proofs.Tree.Leaves
import ArithTree.Tree.Text

/-!
# Rendered trees are unambiguous

Rendered trees are compared together with what stands behind them. The text of a number ends where a
character comes that no number has, and the text of a composite tree ends with its parenthesis. What
takes an argument is how a composite tree begins: `(-` opens a sign change, but also an operation
whose left operand is a negative number.

* `Tree.sign_ne_operand`: what follows tells the two apart. Behind that number there is a blank,
  and behind the operand of a sign change there is a parenthesis.
* `Tree.text_append_inj`: a text that starts with a rendered tree determines the tree and the rest.
* `render_eq_iff`: equal texts are the texts of identical trees.
-/

namespace ArithTree

variable {F : Format}

/-! ## Texts with something behind them -/

/-- The rest of a text behind a tree does not go on like a number. -/
def EndsNumber (rest : List Char) : Prop := ∀ c ∈ rest.head?, ¬ Number.isTextChar c

theorem endsNumber_nil : EndsNumber [] := nofun

theorem endsNumber_cons {c : Char} (h : ¬ Number.isTextChar c) (rest : List Char) :
    EndsNumber (c :: rest) := by
  intro c' hc
  obtain rfl : c = c' := Option.some.inj hc
  exact h

theorem endsNumber_blank (rest : List Char) : EndsNumber (' ' :: rest) :=
  endsNumber_cons (by decide) rest

theorem endsNumber_parenthesis (rest : List Char) : EndsNumber (')' :: rest) :=
  endsNumber_cons (by decide) rest

/-- The text of a number is the longest run of its characters that the whole text starts with. -/
theorem Number.takeWhile_text_append (x : Number F) {u : List Char} (hu : EndsNumber u) :
    (x.text ++ u).takeWhile isTextChar = x.text := by
  have hrest : u.takeWhile isTextChar = [] := by
    cases u with
    | nil => rfl
    | cons c u => exact List.takeWhile_cons_of_neg (hu c rfl)
  rw [List.takeWhile_append_of_pos fun c hc => isTextChar_of_mem_text hc, hrest,
    List.append_nil]

theorem Number.text_append_inj {x y : Number F} {u v : List Char} (hu : EndsNumber u)
    (hv : EndsNumber v) (h : x.text ++ u = y.text ++ v) : x = y ∧ u = v := by
  have htext : x.text = y.text := by
    rw [← x.takeWhile_text_append hu, h, y.takeWhile_text_append hv]
  rw [htext] at h
  exact ⟨text_injective htext, List.append_cancel_left h⟩

theorem Operation.symbol_injective : Function.Injective symbol := by
  intro op op' h
  cases op with
  | add =>
    cases op' with
    | add => rfl
    | mul => exact absurd h (by decide)
  | mul =>
    cases op' with
    | add => exact absurd h (by decide)
    | mul => rfl

namespace Tree

/-! ## How a composite tree begins -/

/-- The text of a number does not begin like that of a composite tree. -/
theorem number_ne_parenthesis (x : Number F) (u w : List Char) : x.text ++ u ≠ '(' :: w := by
  intro h
  have hmem : '(' ∈ x.text := mem_of_append_eq_cons x.text_ne_nil h
  exact absurd (Number.isTextChar_of_mem_text hmem) (by decide)

/-- What begins with the text of a number is the text of no other tree. -/
theorem num_text_append_inj {x : Number F} {t : Tree F} {u v : List Char} (hu : EndsNumber u)
    (hv : EndsNumber v) (h : x.text ++ u = t.text ++ v) : t = .num x ∧ u = v := by
  cases t with
  | num y =>
    obtain ⟨rfl, hrest⟩ := Number.text_append_inj hu hv h
    exact ⟨rfl, hrest⟩
  | binary op l r => exact absurd h (number_ne_parenthesis x u _)
  | neg e => exact absurd h (number_ne_parenthesis x u _)

/-- **A sign in front of an operand is not the sign of a left operand.** The latter would be that of a
number, which ends with a blank. -/
theorem sign_ne_operand (l e : Tree F) (u v : List Char) :
    l.text ++ ' ' :: u ≠ '-' :: (e.text ++ ')' :: v) := by
  intro h
  cases l with
  | num x =>
    have hoperand := Number.text_append_eq_sign h
    obtain ⟨-, hrest⟩ :=
      num_text_append_inj (endsNumber_blank u) (endsNumber_parenthesis v) hoperand
    exact absurd (List.cons.inj hrest).1 (by decide)
  | binary op l r => exact absurd (List.cons.inj h).1 (by decide)
  | neg e => exact absurd (List.cons.inj h).1 (by decide)

/-- Both begin with `(-`. -/
example :
    (binary .add (.num (.ofInt .binary64 (-1))) (.num (.ofInt .binary64 2))).render = "(-1 + 2)" ∧
      (neg (binary .add (.num (.ofInt .binary64 1)) (.num (.ofInt .binary64 2)))).render =
        "(-(1 + 2))" := by
  decide +kernel

/-! ## Reading from the left -/

/-- The texts of composite trees with something behind them, from the left to the right. -/
theorem binary_text_append (op : Operation) (l r : Tree F) (u : List Char) :
    (binary op l r).text ++ u =
      '(' :: (l.text ++ ' ' :: op.symbol :: ' ' :: (r.text ++ ')' :: u)) := by
  simp [text]

theorem neg_text_append (e : Tree F) (u : List Char) :
    (neg e).text ++ u = '(' :: '-' :: (e.text ++ ')' :: u) := by
  simp [text]

/-- **A text that starts with a rendered tree determines the tree and the rest.** -/
theorem text_append_inj {a b : Tree F} {u v : List Char} (hu : EndsNumber u) (hv : EndsNumber v)
    (h : a.text ++ u = b.text ++ v) : a = b ∧ u = v := by
  induction a generalizing b u v with
  | num x =>
    obtain ⟨rfl, hrest⟩ := num_text_append_inj hu hv h
    exact ⟨rfl, hrest⟩
  | binary op l r ihl ihr =>
    cases b with
    | num y => exact absurd h.symm (number_ne_parenthesis y v _)
    | binary op' l' r' =>
      rw [binary_text_append, binary_text_append] at h
      obtain ⟨rfl, hbehind⟩ :=
        ihl (endsNumber_blank _) (endsNumber_blank _) (List.cons.inj h).2
      obtain ⟨hsymbol, hright⟩ := List.cons.inj (List.cons.inj hbehind).2
      obtain rfl := Operation.symbol_injective hsymbol
      obtain ⟨rfl, hrest⟩ :=
        ihr (endsNumber_parenthesis _) (endsNumber_parenthesis _) (List.cons.inj hright).2
      exact ⟨rfl, (List.cons.inj hrest).2⟩
    | neg e' =>
      rw [binary_text_append, neg_text_append] at h
      exact absurd (List.cons.inj h).2 (sign_ne_operand l e' _ _)
  | neg e ih =>
    cases b with
    | num y => exact absurd h.symm (number_ne_parenthesis y v _)
    | binary op' l' r' =>
      rw [neg_text_append, binary_text_append] at h
      exact absurd (List.cons.inj h).2.symm (sign_ne_operand l' e _ _)
    | neg e' =>
      rw [neg_text_append, neg_text_append] at h
      obtain ⟨rfl, hrest⟩ := ih (endsNumber_parenthesis _) (endsNumber_parenthesis _)
        (List.cons.inj (List.cons.inj h).2).2
      exact ⟨rfl, (List.cons.inj hrest).2⟩

theorem text_injective : Function.Injective (text (F := F)) := fun _ _ h =>
  (text_append_inj endsNumber_nil endsNumber_nil (congrArg (· ++ []) h)).1

theorem render_injective : Function.Injective (render (F := F)) := fun _ _ h => by
  rw [render_eq, render_eq] at h
  exact text_injective (String.ofList_injective h)

end Tree

/-! ## Renderings and trees -/

/-- Five ways to put a sign in front of a number: the negative number, the sign change of the number
and of the negative number, the operation on the negative number, and the sign change of the
operation. -/
def Tree.signed (op : Operation) (x : Number F) (t : Tree F) : List (Tree F) :=
  [.num x.neg, .neg (.num x), .neg (.num x.neg), .binary op (.num x.neg) t,
    .neg (.binary op (.num x) t)]

theorem Tree.nodup_signed (op : Operation) (x : Number F) (t : Tree F) :
    (Tree.signed op x t).Nodup := by
  have hneg : Tree.neg (.num x) ≠ .neg (.num x.neg) := fun h =>
    x.ne_neg (Tree.num.inj (Tree.neg.inj h))
  simp [Tree.signed, hneg]

/-- A tree is larger than its left operand. -/
theorem Tree.binary_left_ne (op : Operation) (l r : Tree F) : Tree.binary op l r ≠ l := by
  intro h
  have hsize := congrArg sizeOf h
  rw [binary.sizeOf_spec] at hsize
  omega

/-- **The rendered text determines the tree**: two renderings are equal exactly if the trees have the
same shape and the same bits at their leaves. In particular all ways to put a sign in front of a
number are told apart, and so is nesting to the left from nesting to the right. -/
theorem render_eq_iff (F : Format) :
    (∀ a b : Tree F, a.render = b.render ↔ a.Identical b) ∧
    (∀ (op : Operation) (x : Number F) (t : Tree F),
      ((Tree.signed op x t).map Tree.render).Nodup) ∧
    ∀ (op op' : Operation) (a b c : Tree F),
      (Tree.binary op' (.binary op a b) c).render ≠ (Tree.binary op a (.binary op' b c)).render := by
  refine ⟨fun a b => ?_, fun op x t => ?_, fun op op' a b c h => ?_⟩
  · rw [Tree.identical_iff]
    exact Tree.render_injective.eq_iff
  · exact List.Nodup.map Tree.render_injective (Tree.nodup_signed op x t)
  · obtain ⟨-, hleft, -⟩ := Tree.binary.inj (Tree.render_injective h)
    exact Tree.binary_left_ne op a b hleft

end ArithTree
