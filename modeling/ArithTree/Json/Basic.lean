import ArithTree.Mismatch

/-!
# Reading from the front of a text

A `Reader` takes what it reads from the front of a list of characters and hands on the rest, or
refuses the text. There are three reasons to refuse: the text is not JSON or has something that may
not stand there, it ends too early, or it is JSON that is not a tree. A reader stops at the first
reason that it meets.
-/

namespace ArithTree.Json

/-- Why a text is refused. -/
inductive Refusal where
  /-- Not JSON, or not what may stand here. -/
  | malformed
  /-- The text ended too early. -/
  | truncated
  /-- JSON, but not a tree. -/
  | mismatch (m : Mismatch)
  deriving DecidableEq

/-- Reads a value from the front of a text and gives the rest. -/
abbrev Reader (α : Type) := List Char → Except Refusal (α × List Char)

/-- The characters allowed between tokens. -/
def isBlank (c : Char) : Bool := c == ' ' || c == '\t' || c == '\n' || c == '\r'

/-- The text from its first character on that is not blank. -/
def skipBlanks (s : List Char) : List Char := s.dropWhile isBlank

/-- Reads one given character, with blanks before it, and gives the rest. -/
def expect (c : Char) (s : List Char) : Except Refusal (List Char) :=
  match skipBlanks s with
  | [] => .error .truncated
  | d :: rest => if d = c then .ok rest else .error .malformed

/-- Reads the given letters and gives the rest. -/
def expectWord : List Char → List Char → Except Refusal (List Char)
  | [], s => .ok s
  | _ :: _, [] => .error .truncated
  | c :: word, d :: s => if d = c then expectWord word s else .error .malformed

/-! ## Reading what is there -/

theorem skipBlanks_cons {c : Char} (h : isBlank c = false) (s : List Char) :
    skipBlanks (c :: s) = c :: s := by simp [skipBlanks, h]

theorem expect_cons {c : Char} (h : isBlank c = false) (s : List Char) :
    expect c (c :: s) = .ok s := by
  simp [expect, skipBlanks_cons h]

end ArithTree.Json
