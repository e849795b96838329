import ArithTree.Text.Quoted
import ArithTree.Tree

/-!
# Causes of failure and the faults that report them

A `Cause` says which rule of tree building was broken; together they are the violations of an
invariant of section 7 of `SPEC_FULL.md`, as far as A.2 leaves them possible. A `Fault` is what is
reported (A.7): a message, which is all that can be seen of it. Faults are compared as their messages
are, character by character in the order of the code points.

* `Cause.message`: the wording of every cause.
* `Fault.format?`: a fault whose message is a template with holes.
* `Value.toLiteral`, `Draft.build`: a literal is checked once, when it is made; a tree that is built
  from values is checked from left to right, up to the first NaN.
-/

namespace ArithTree

variable {F : Format}

/-- Why a tree could not be built. -/
inductive Cause where
  /-- A literal must be a number. -/
  | nanLiteral
  /-- A binary operation found no operand. -/
  | missingBothOperands (op : Operation)
  /-- A binary operation found one operand, which is the right one. -/
  | missingLeftOperand (op : Operation)
  /-- A binary operation found its operands counted but not there. -/
  | lostOperands (op : Operation)
  /-- A sign change found no operand. -/
  | missingOperand
  /-- More than one tree was left at the end. -/
  | unfinished (count : Nat)
  /-- There was no tree at the end. -/
  | emptyStack
  deriving DecidableEq, Repr

/-- A reported failure. -/
structure Fault where
  message : String
  deriving DecidableEq, Repr

namespace Cause

/-- The wording of the cause. -/
def message : Cause → String
  | .nanLiteral => "number literal must not be NaN"
  | .missingBothOperands op => op.name ++ " is missing both operands"
  | .missingLeftOperand op => op.name ++ " is missing its left operand"
  | .lostOperands op => op.name ++ " lost its operands"
  | .missingOperand => "unary minus is missing its operand"
  | .unfinished count =>
    toString count ++ " trees are left on the stack, operators are missing"
  | .emptyStack => "cannot build a tree from an empty stack"

/-- The report of the cause. -/
def fault (c : Cause) : Fault := ⟨c.message⟩

end Cause

namespace Fault

/-- What a reader of the fault sees. -/
def display (f : Fault) : String := f.message

/-- The fault in debug output, with its message quoted. -/
def debugText (f : Fault) : String :=
  "ExError \x7b msg: " ++ String.ofList (Quoted.quote f.message.toList) ++ " \x7d"

/-- The order of the messages. -/
def compare (f g : Fault) : Ordering := Ord.compare f.message g.message

end Fault

/-! ## Messages from templates

A template is a text with holes. In its written form a hole is an empty pair of braces, and a
brace that stands for itself is doubled. Arguments are put into the holes in order and as they
are: braces inside an argument mean nothing (A.7). -/

/-- A part of a template. -/
inductive Piece where
  | text (c : Char)
  | hole
  deriving DecidableEq, Repr

/-- A text with holes. -/
abbrev Template := List Piece

namespace Template

/-- Reads a template; a brace that is neither doubled nor part of a hole has no meaning. -/
def ofText? : List Char → Option Template
  | '{' :: '}' :: rest => (ofText? rest).map (.hole :: ·)
  | '{' :: '{' :: rest => (ofText? rest).map (.text '{' :: ·)
  | '}' :: '}' :: rest => (ofText? rest).map (.text '}' :: ·)
  | c :: rest => if c = '{' ∨ c = '}' then none else (ofText? rest).map (.text c :: ·)
  | [] => some []

/-- Puts the arguments into the holes; there must be one for each. -/
def fill? : Template → List String → Option (List Char)
  | [], [] => some []
  | [], _ :: _ => none
  | .text c :: rest, arguments => (fill? rest arguments).map (c :: ·)
  | .hole :: rest, a :: arguments => (fill? rest arguments).map (a.toList ++ ·)
  | .hole :: _, [] => none

end Template

/-- The fault whose message is a template with its holes filled. -/
def Fault.format? (template : String) (arguments : List String) : Option Fault :=
  ((Template.ofText? template.toList).bind (·.fill? arguments)).map (⟨String.ofList ·⟩)

/-! ## Literals that are checked

A draft has the shape of a tree, but any value may stand at its leaves. -/

/-- The number of a value, which must not be NaN (A.2). -/
def Value.toLiteral : Value F → Except Cause (Number F)
  | .nan => .error .nanLiteral
  | .number x => .ok x

/-- A tree whose literals have not been checked. -/
inductive Draft (F : Format) where
  | num (v : Value F)
  | binary (op : Operation) (left right : Draft F)
  | neg (operand : Draft F)
  deriving DecidableEq

/-- The tree of a draft without NaN. -/
def Draft.build : Draft F → Except Cause (Tree F)
  | .num v => do return .num (← v.toLiteral)
  | .binary op l r => do
    let left ← l.build
    let right ← r.build
    return .binary op left right
  | .neg e => do return .neg (← e.build)

end ArithTree
