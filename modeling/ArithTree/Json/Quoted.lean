import ArithTree.Json.Basic

/-!
# JSON strings

The characters of a string stand for themselves, except for the quote that ends it, control
characters, which are refused, and escapes. An escape with four hexadecimal digits names a UTF-16
unit; two of them that form a surrogate pair name one character, and a surrogate on its own is
refused.
-/

namespace ArithTree.Json.Quoted

/-- The value of a hexadecimal digit. -/
def hexDigit? (c : Char) : Option Nat :=
  if '0' ≤ c ∧ c ≤ '9' then some (c.toNat - '0'.toNat)
  else if 'a' ≤ c ∧ c ≤ 'f' then some (c.toNat - 'a'.toNat + 10)
  else if 'A' ≤ c ∧ c ≤ 'F' then some (c.toNat - 'A'.toNat + 10)
  else none

/-- The value of four hexadecimal digits. -/
def hexValue? (a b c d : Char) : Option Nat := do
  return (((← hexDigit? a) * 16 + (← hexDigit? b)) * 16 + (← hexDigit? c)) * 16 + (← hexDigit? d)

/-- The UTF-16 unit named by the first four characters. Fewer than four bytes of text are an escape
cut short; four bytes or more have to be digits. -/
def readUnit (s : List Char) : Except Refusal Nat :=
  match s with
  | a :: b :: c :: d :: _ =>
    match hexValue? a b c d with
    | some unit => .ok unit
    | none => .error .malformed
  | short =>
    if (String.ofList short).utf8ByteSize < 4 then .error .truncated else .error .malformed

def isLeadingSurrogate (unit : Nat) : Bool := 0xd800 ≤ unit && unit ≤ 0xdbff

def isTrailingSurrogate (unit : Nat) : Bool := 0xdc00 ≤ unit && unit ≤ 0xdfff

/-- The character behind the `u` of an escape, and the number of characters that it took. -/
def readCodePoint (s : List Char) : Except Refusal (Char × Nat) := do
  let unit ← readUnit s
  if isTrailingSurrogate unit then .error .malformed
  else if isLeadingSurrogate unit then
    match s.drop 4 with
    | [] => .error .truncated
    | ['\\'] => .error .truncated
    | '\\' :: 'u' :: rest => do
      let next ← readUnit rest
      if isTrailingSurrogate next then
        return (Char.ofNat ((unit - 0xd800) * 0x400 + (next - 0xdc00) + 0x10000), 10)
      else .error .malformed
    | _ => .error .malformed
  else return (Char.ofNat unit, 4)

/-- The character that an escape stands for, and the number of characters behind the backslash that
it took. -/
def readEscape : List Char → Except Refusal (Char × Nat)
  | [] => .error .truncated
  | c :: rest =>
    if c = '"' ∨ c = '\\' ∨ c = '/' then .ok (c, 1)
    else if c = 'b' then .ok ('\x08', 1)
    else if c = 'f' then .ok ('\x0c', 1)
    else if c = 'n' then .ok ('\n', 1)
    else if c = 'r' then .ok ('\r', 1)
    else if c = 't' then .ok ('\t', 1)
    else if c = 'u' then do
      let (d, taken) ← readCodePoint rest
      return (d, taken + 1)
    else .error .malformed

/-- Reads a string behind its opening quote, of which a number of characters have been taken already
by an escape. -/
def readFrom : Nat → Reader (List Char)
  | _, [] => .error .truncated
  | taken + 1, _ :: rest => readFrom taken rest
  | 0, c :: rest =>
    if c = '"' then .ok ([], rest)
    else if c = '\\' then do
      let (d, taken) ← readEscape rest
      let (text, rest) ← readFrom taken rest
      return (d :: text, rest)
    else if c.toNat < 0x20 then .error .malformed
    else do
      let (text, rest) ← readFrom 0 rest
      return (c :: text, rest)

/-- Reads a string behind its opening quote. -/
def read : Reader (List Char) := readFrom 0

/-- What an escape has taken is passed over. -/
theorem readFrom_length (taken rest : List Char) :
    readFrom taken.length (taken ++ rest) = readFrom 0 rest := by
  induction taken with
  | nil => rfl
  | cons c taken ih => simpa [readFrom] using ih

end ArithTree.Json.Quoted
