import ArithTree.Mismatch

/-!
# Trees as structured data

`Data` is a value as a data format hands it over once its text is gone: numbers of several types,
texts, sequences and named variants. Unlike JSON text it can hold NaN and infinities, and it has no
bound on nesting.

* `Data.readTree`: the tree that the data describes, read from left to right (`SPEC_FULL.md`, A.5).
  Literals of any number type are rounded to the format of the tree.
-/

namespace ArithTree

variable {F : Format}

/-- A structured value. -/
inductive Data where
  | real64 (v : Value .binary64)
  | real32 (v : Value .binary32)
  | unsigned (n : Nat)
  | signed (i : Int)
  | bool (b : Bool)
  | text (s : List Char)
  | unit
  | seq (items : List Data)
  | variant (name : List Char) (content : Data)

namespace Data

/-- The number that the data holds, rounded to the format, if it holds one. -/
def toValue? (F : Format) : Data → Option (Value F)
  | .real64 v => some (v.convert F)
  | .real32 v => some (v.convert F)
  | .unsigned n => some (.number (.ofInt F n))
  | .signed i => some (.number (.ofInt F i))
  | _ => none

/-- What the data is, for a message. -/
def found : Data → Found
  | .real64 v => .real v.plainText
  | .real32 v => .real (v.convert .binary64).plainText
  | .unsigned n => .integer n
  | .signed i => .integer i
  | .bool b => .bool b
  | .text s => .text s
  | .unit => .unit
  | .seq _ => .sequence
  | .variant _ _ => .map

/-- The literal that the data holds. -/
def readLiteral (F : Format) (d : Data) : Except Mismatch (Number F) :=
  match d.toValue? F with
  | some (.number x) => .ok x
  | some .nan => .error .nanLiteral
  | none => .error (.wrongType d.found (.number F))

/-- The tree that the data describes. -/
def readTree (F : Format) : Data → Except Mismatch (Tree F)
  | .variant name content => do
    match ← NodeKind.ofName name with
    | .num => return .num (← content.readLiteral F)
    | .neg => return .neg (← content.readTree F)
    | .binary op =>
      match content with
      | .seq [] => .error (.tooFew op 0)
      | .seq [l] => do
        let _ ← l.readTree F
        .error (.tooFew op 1)
      | .seq (l :: r :: others) => do
        let left ← l.readTree F
        let right ← r.readTree F
        if others.isEmpty then return .binary op left right
        else .error (.tooMany (2 + others.length))
      | other => .error (.wrongType other.found (.children op))
  | _ => .error (.wrongType .noVariant .node)

end Data

end ArithTree
