import ArithTree.Binary.Text
import ArithTree.Tree

/-!
# Rendered trees

* `Tree.text`: every composite node in exactly one pair of parentheses, literals in none
  (`SPEC_FULL.md`, 4.1, render).
* `Tree.debugText`: every node by name, its children as arguments.

Both are stated by recursion on the tree. `Tree.render` and `Tree.debug` produce them from the back,
by `textThen` and `debugTextThen`, which touch every character once however deep the tree is
(`textThen_eq`, `debugTextThen_eq`).
-/

namespace ArithTree.Tree

variable {F : Format}

/-! ## Fully parenthesized text -/

/-- The fully parenthesized text of the tree. Sums and products are written alike but for the symbol
(4.1, render). -/
def text : Tree F → List Char
  | .num x => x.text
  | .binary op l r => '(' :: l.text ++ ' ' :: op.symbol :: ' ' :: r.text ++ [')']
  | .neg e => '(' :: '-' :: e.text ++ [')']

/-- The text of the tree with something behind it. -/
def textThen : Tree F → List Char → List Char
  | .num x, rest => x.text ++ rest
  | .binary op l r, rest =>
    '(' :: l.textThen (' ' :: op.symbol :: ' ' :: r.textThen (')' :: rest))
  | .neg e, rest => '(' :: '-' :: e.textThen (')' :: rest)

theorem textThen_eq (t : Tree F) (rest : List Char) : t.textThen rest = t.text ++ rest := by
  induction t generalizing rest with
  | num x => rfl
  | binary op l r ihl ihr => simp [textThen, text, ihl, ihr]
  | neg e ih => simp [textThen, text, ih]

/-- The rendered tree. -/
def render (t : Tree F) : String := String.ofList (t.textThen [])

theorem render_eq (t : Tree F) : t.render = String.ofList t.text := by
  simp [render, textThen_eq]

/-! ## Debug output -/

/-- The text between the name of a leaf and its number. -/
def leafOpening : List Char := NodeKind.num.name ++ ['(', 'N', 'u', 'm', 'b', 'e', 'r', '(']

/-- The tree as its nodes' names, applied to their children. -/
def debugText : Tree F → List Char
  | .num x => leafOpening ++ x.debugText ++ [')', ')']
  | .binary op l r =>
    (NodeKind.binary op).name ++ '(' :: l.debugText ++ ',' :: ' ' :: r.debugText ++ [')']
  | .neg e => NodeKind.neg.name ++ '(' :: e.debugText ++ [')']

/-- The debug text of the tree with something behind it. -/
def debugTextThen : Tree F → List Char → List Char
  | .num x, rest => leafOpening ++ (x.debugText ++ ')' :: ')' :: rest)
  | .binary op l r, rest =>
    (NodeKind.binary op).name ++
      '(' :: l.debugTextThen (',' :: ' ' :: r.debugTextThen (')' :: rest))
  | .neg e, rest => NodeKind.neg.name ++ '(' :: e.debugTextThen (')' :: rest)

theorem debugTextThen_eq (t : Tree F) (rest : List Char) :
    t.debugTextThen rest = t.debugText ++ rest := by
  induction t generalizing rest with
  | num x => simp [debugTextThen, debugText]
  | binary op l r ihl ihr => simp [debugTextThen, debugText, ihl, ihr]
  | neg e ih => simp [debugTextThen, debugText, ih]

/-- The tree in debug output. -/
def debug (t : Tree F) : String := String.ofList (t.debugTextThen [])

theorem debug_eq (t : Tree F) : t.debug = String.ofList t.debugText := by
  simp [debug, debugTextThen_eq]

end ArithTree.Tree
