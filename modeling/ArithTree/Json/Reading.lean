import ArithTree.Binary.Text
import ArithTree.Json.Numeral
import ArithTree.Json.Quoted
import ArithTree.Tree

/-!
# Reading trees from JSON

`readText` reads a whole text as a tree, in the layout of A.5 of `SPEC_FULL.md`. It goes from left to
right and stops at the first reason to refuse, so that of several faults the leftmost is reported.

Nesting is bounded: at most `maxOpenBrackets` brackets may be open at once, counting the brace of
every node and the bracket around two children. A bracket that would be one too many is refused when
it is met. `readTree` takes the number of brackets that may still be opened, and passes it on less
the brackets it has opened itself; whatever it leaves open for one child is open for the next too.
-/

namespace ArithTree

variable {F : Format}

namespace Json

/-- The number of brackets that may be open at once. -/
def maxOpenBrackets : Nat := 127

/-- A refusal of well-formed data. -/
def liftMismatch {α : Type} : Except Mismatch α → Except Refusal α
  | .ok a => .ok a
  | .error m => .error (.mismatch m)

/-! ## Leaves -/

/-- What a numeral is, for a message; one out of range is no numeral at all. -/
def Numeral.found (n : Numeral) : Except Refusal Found :=
  match n.integer?, n.toNumber? .binary64 with
  | some i, _ => .ok (.integer i)
  | none, some x => .ok (.real x.jsonText)
  | none, none => .error .malformed

/-- What the value at the front of a text is, for a message. Scalars are read to their end; of a
list or an object only the bracket is looked at. -/
def readFound (s : List Char) : Except Refusal Found :=
  match s with
  | [] => .error .truncated
  | c :: rest =>
    if c = 'n' then do
      let _ ← expectWord ['u', 'l', 'l'] rest
      return .null
    else if c = 't' then do
      let _ ← expectWord ['r', 'u', 'e'] rest
      return .bool true
    else if c = 'f' then do
      let _ ← expectWord ['a', 'l', 's', 'e'] rest
      return .bool false
    else if Numeral.starts s then do
      let (n, _) ← Numeral.read s
      n.found
    else if c = '"' then do
      let (text, _) ← Quoted.read rest
      return .text text
    else if c = '[' then return .sequence
    else if c = '\x7b' then return .map
    else .error .malformed

/-- Refuses the value at the front of a text, because something else was expected. -/
def refuse {α : Type} (expected : Expected) (s : List Char) : Except Refusal α := do
  .error (.mismatch (.wrongType (← readFound s) expected))

/-- Reads a literal. -/
def readLiteral (F : Format) : Reader (Number F) := fun s =>
  let s := skipBlanks s
  if Numeral.starts s then do
    let (n, rest) ← Numeral.read s
    match n.toNumber? F with
    | some x => return (x, rest)
    | none => .error .malformed
  else refuse (.number F) s

/-! ## Nodes -/

/-- Reads the name of a node behind its opening quote. -/
def readKind : Reader NodeKind := fun s => do
  let (name, rest) ← Quoted.read s
  return (← liftMismatch (NodeKind.ofName name), rest)

/-- Reads two children in brackets. No reader for the children means that no further bracket may be
opened. -/
def readChildren (op : Operation) (child : Option (Reader (Tree F))) : Reader (Tree F × Tree F) :=
  fun s =>
    match skipBlanks s with
    | '[' :: rest =>
      match child with
      | none => .error .malformed
      | some read => do
        if (skipBlanks rest).head? == some ']' then .error (.mismatch (.tooFew op 0))
        let (left, rest) ← read rest
        if (skipBlanks rest).head? == some ']' then .error (.mismatch (.tooFew op 1))
        let (right, rest) ← read (← expect ',' rest)
        return ((left, right), ← expect ']' rest)
    | s => refuse (.children op) s

/-- Reads a node. A node with a name costs one bracket, and its children one more if there are two:
`operand` reads behind one bracket and `child` behind two. A reader that is not there has no
brackets left.

Only a string can be the key of an entry in JSON. A number or `null` in its place is therefore
malformed, and not a mismatch, although a mismatch it would be in the place of a literal. -/
def readNode (operand child : Option (Reader (Tree F))) : Reader (Tree F) := fun s =>
  match skipBlanks s with
  | [] => .error .truncated
  | '"' :: rest => do
    let (kind, _) ← readKind rest
    .error (.mismatch (.wrongType .bareName (.content kind)))
  | '\x7b' :: rest =>
    match operand with
    | none => .error .malformed
    | some readOperand => do
      let (kind, rest) ← readKind (← expect '"' rest)
      let rest ← expect ':' rest
      let (t, rest) ← match kind with
        | .num => do
          let (x, rest) ← readLiteral F rest
          pure (Tree.num x, rest)
        | .neg => do
          let (e, rest) ← readOperand rest
          pure (Tree.neg e, rest)
        | .binary op => do
          let ((left, right), rest) ← readChildren op child rest
          pure (Tree.binary op left right, rest)
      return (t, ← expect '\x7d' rest)
  | _ => .error .malformed

/-- Reads a tree in which at most the given number of brackets may be open at once. -/
def readTree (F : Format) : Nat → Reader (Tree F)
  | 0 => readNode none none
  | 1 => readNode (some (readTree F 0)) none
  | n + 2 => readNode (some (readTree F (n + 1))) (some (readTree F n))

/-- Reads a text that is a tree and nothing else, blanks aside. -/
def readText (F : Format) (s : List Char) : Except Refusal (Tree F) := do
  let (t, rest) ← readTree F maxOpenBrackets s
  if skipBlanks rest == [] then return t else .error .malformed

end Json

/-- The tree of a JSON text. -/
def Tree.ofJson (F : Format) (s : String) : Except Json.Refusal (Tree F) :=
  Json.readText F s.toList

end ArithTree
