import ArithTree.Binary.Text
import ArithTree.Fault

/-!
# Data that is not a tree

Trees are read from data that knows numbers, texts, sequences and named variants. A `Mismatch` says
why well-formed data is not a tree: something else was expected where it stands, a node has a name
that does not exist, a binary node does not have two children, or a literal is NaN, which is refused
with the words of the fault (`SPEC_FULL.md`, A.5).
-/

namespace ArithTree

/-- What stood where something else was expected. -/
inductive Found where
  | null
  | unit
  | bool (b : Bool)
  | integer (i : Int)
  /-- A number with a fraction, as the data format writes it. -/
  | real (digits : List Char)
  | text (s : List Char)
  | sequence
  | map
  /-- A node's name without content. -/
  | bareName
  /-- Data that is no variant. -/
  | noVariant
  deriving DecidableEq

/-- What was expected. -/
inductive Expected where
  /-- A number of the format. -/
  | number (F : Format)
  /-- The two children of a node. -/
  | children (op : Operation)
  /-- A node of any kind. -/
  | node
  /-- The content of a node of this kind. -/
  | content (kind : NodeKind)
  deriving DecidableEq

/-- Why data is not a tree. -/
inductive Mismatch where
  | wrongType (found : Found) (expected : Expected)
  | unknownKind (name : List Char)
  /-- Fewer children than two. -/
  | tooFew (op : Operation) (count : Nat)
  /-- More children than two. -/
  | tooMany (count : Nat)
  /-- A literal that is NaN. -/
  | nanLiteral
  deriving DecidableEq

/-- A node kind's name as text. -/
def NodeKind.label (kind : NodeKind) : String := String.ofList kind.name

namespace Found

def message : Found → String
  | .null => "null"
  | .unit => "unit value"
  | .bool b => "boolean `" ++ toString b ++ "`"
  | .integer i => "integer `" ++ toString i ++ "`"
  | .real digits => "floating point `" ++ String.ofList digits ++ "`"
  | .text s => "string " ++ String.ofList (Quoted.quote s)
  | .sequence => "sequence"
  | .map => "map"
  | .bareName => "unit variant"
  | .noVariant => "non-variant"

end Found

namespace Expected

def message : Expected → String
  | .number F => F.name
  | .children op => "tuple variant Expr::" ++ (NodeKind.binary op).label
  | .node => "enum Expr"
  | .content (.binary _) => "tuple variant"
  | .content _ => "newtype variant"

end Expected

namespace Mismatch

/-- The wording of the mismatch. -/
def message : Mismatch → String
  | .wrongType found expected =>
    "invalid type: " ++ found.message ++ ", expected " ++ expected.message
  | .unknownKind name =>
    "unknown variant `" ++ String.ofList name ++ "`, expected one of " ++
      ", ".intercalate (NodeKind.all.map fun kind => "`" ++ kind.label ++ "`")
  | .tooFew op count =>
    "invalid length " ++ toString count ++ ", expected " ++ (Expected.children op).message ++
      " with 2 elements"
  | .tooMany count => "invalid length " ++ toString count ++ ", expected 2 elements in sequence"
  | .nanLiteral => "Invalid literal - " ++ Cause.nanLiteral.message

end Mismatch

/-- The kind of a node with the given name. -/
def NodeKind.ofName (name : List Char) : Except Mismatch NodeKind :=
  match ofName? name with
  | some kind => .ok kind
  | none => .error (.unknownKind name)

end ArithTree
