import ArithTree.Binary.Text
import ArithTree.Tree

/-!
# Writing trees as JSON

A node is an object with one entry: its kind, and its content. The content is a number, another
node, or a list of two nodes (`SPEC_FULL.md`, A.5). Nothing is put between the tokens.

`Tree.jsonText` states this by recursion on the tree; `Tree.toJson` produces it from the back
(`jsonTextThen_eq`).
-/

namespace ArithTree

variable {F : Format}

/-- An object with one entry. -/
def Json.entry (kind : NodeKind) (content : List Char) : List Char :=
  '\x7b' :: '"' :: kind.name ++ '"' :: ':' :: content ++ ['\x7d']

namespace Tree

/-- The JSON text of a tree. -/
def jsonText : Tree F → List Char
  | .num x => Json.entry .num x.jsonText
  | .binary op l r => Json.entry (.binary op) ('[' :: l.jsonText ++ ',' :: r.jsonText ++ [']'])
  | .neg e => Json.entry .neg e.jsonText

/-- The JSON text of a tree with something behind it. -/
def jsonTextThen : Tree F → List Char → List Char
  | .num x, rest =>
    '\x7b' :: '"' :: NodeKind.num.name ++ '"' :: ':' :: (x.jsonText ++ '\x7d' :: rest)
  | .binary op l r, rest =>
    '\x7b' :: '"' :: (NodeKind.binary op).name ++
      '"' :: ':' :: '[' :: l.jsonTextThen (',' :: r.jsonTextThen (']' :: '\x7d' :: rest))
  | .neg e, rest =>
    '\x7b' :: '"' :: NodeKind.neg.name ++ '"' :: ':' :: e.jsonTextThen ('\x7d' :: rest)

theorem jsonTextThen_eq (t : Tree F) (rest : List Char) :
    t.jsonTextThen rest = t.jsonText ++ rest := by
  induction t generalizing rest with
  | num x => simp [jsonTextThen, jsonText, Json.entry]
  | binary op l r ihl ihr => simp [jsonTextThen, jsonText, Json.entry, ihl, ihr]
  | neg e ih => simp [jsonTextThen, jsonText, Json.entry, ih]

/-- The tree as a JSON text. -/
def toJson (t : Tree F) : String := String.ofList (t.jsonTextThen [])

theorem toJson_eq (t : Tree F) : t.toJson = String.ofList t.jsonText := by
  simp [toJson, jsonTextThen_eq]

end Tree

end ArithTree
