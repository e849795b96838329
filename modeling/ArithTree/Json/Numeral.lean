import ArithTree.Binary.Number
import ArithTree.Json.Basic

/-!
# JSON numerals

A numeral is a sign, an integer part without superfluous zeros, an optional fraction and an optional
exponent. It denotes a decimal, which is rounded to the format that is asked for. Zeros at the end of
the fraction are not digits of that decimal.

A numeral may have more digits than are read: `digitsRead` bounds them, and a one stands for all
further digits. No point halfway between two numbers of the format has more digits, so this is the
same as reading on, unless the digits that are read are such a point: then the numeral counts as
above it, even if all further digits are zeros.

* `Numeral.integer?`: the whole numbers that are kept as integers, unsigned ones up to 64 bits and
  signed ones of 64 bits. Minus zero is not one of them, because an integer has no sign at zero.
* `Numeral.toNumber?`: the number nearest to the numeral; none if that would be infinite.
-/

namespace ArithTree.Json

/-- A numeral, as the decimal that it denotes. -/
structure Numeral where
  negative : Bool
  coefficient : Nat
  exponent : Int
  /-- Written with neither fraction nor exponent. -/
  plain : Bool
  deriving DecidableEq, Repr

namespace Numeral

/-! ## Reading -/

/-- Reads one digit or more. -/
def readDigits : Reader (List Char) := fun s =>
  match s.takeWhile Char.isDigit, s.dropWhile Char.isDigit with
  | [], [] => .error .truncated
  | [], _ :: _ => .error .malformed
  | digits, rest => .ok (digits, rest)

/-- All digits at the front are read. -/
theorem readDigits_append {ds rest : List Char} (hne : ds ≠ []) (hds : ∀ c ∈ ds, c.isDigit)
    (hrest : ∀ c ∈ rest.head?, c.isDigit = false) : readDigits (ds ++ rest) = .ok (ds, rest) := by
  have h1 : (ds ++ rest).takeWhile Char.isDigit = ds := by
    rw [List.takeWhile_append_of_pos hds]
    cases rest with
    | nil => simp
    | cons c r => simp [hrest c (by simp)]
  have h2 : (ds ++ rest).dropWhile Char.isDigit = rest := by
    rw [List.dropWhile_append_of_pos hds]
    cases rest with
    | nil => simp
    | cons c r => simp [hrest c (by simp)]
  cases ds with
  | nil => exact absurd rfl hne
  | cons d ds => simp only [readDigits, h1, h2]

/-- Reads an integer part: a zero on its own, or digits that start with another one. -/
def readWhole : Reader (List Char)
  | '0' :: rest =>
    if (rest.head?.any Char.isDigit) then .error .malformed else .ok (['0'], rest)
  | s => readDigits s

/-- The digits up to the last one that is not zero. -/
def dropTrailingZeros (digits : List Char) : List Char :=
  (digits.reverse.dropWhile (· == '0')).reverse

/-- Reads a fraction, if there is one. -/
def readFraction : Reader (List Char)
  | '.' :: rest => readDigits rest
  | s => .ok ([], s)

/-- Reads a sign, if there is one. -/
def readSign : List Char → Bool × List Char
  | '-' :: rest => (true, rest)
  | '+' :: rest => (false, rest)
  | s => (false, s)

/-- Reads an exponent, if there is one. -/
def readExponent : Reader (Option Int) := fun s =>
  match s with
  | [] => .ok (none, [])
  | c :: rest =>
    if c = 'e' ∨ c = 'E' then do
      let (negative, rest) := readSign rest
      let (digits, rest) ← readDigits rest
      let size : Int := Nat.ofDigitChars 10 digits 0
      return (some (if negative then -size else size), rest)
    else .ok (none, s)

/-- Reads a numeral up to the first character that cannot continue it. -/
def read : Reader Numeral := fun s => do
  let negative := s.head? == some '-'
  let (whole, s) ← readWhole (if negative then s.drop 1 else s)
  let (fraction, s) ← readFraction s
  let (exponent, s) ← readExponent s
  let decimals := dropTrailingZeros fraction
  return (⟨negative, Nat.ofDigitChars 10 (whole ++ decimals) 0,
    exponent.getD 0 - decimals.length, fraction.isEmpty && exponent.isNone⟩, s)

/-- Whether a numeral is what a text starts with. -/
def starts : List Char → Bool
  | [] => false
  | c :: _ => c == '-' || c.isDigit

/-! ## Values -/

/-- The integer that a plain numeral is kept as, if it fits into 64 bits. -/
def integer? (n : Numeral) : Option Int :=
  if !n.plain then none
  else if n.negative then
    if 0 < n.coefficient ∧ n.coefficient ≤ Nat.pow 2 63 then some (-(n.coefficient : Int)) else none
  else if n.coefficient < Nat.pow 2 64 then some n.coefficient else none

/-- The digits of a numeral that are read for a format: as many as a point halfway between two of its
numbers can have. -/
def digitsRead : Format → Nat
  | .binary32 => 113
  | .binary64 => 768

/-- The decimal that a numeral denotes, its sign aside. -/
def magnitude (n : Numeral) : Decimal := ⟨n.coefficient, n.exponent⟩

/-- The number that a numeral is read as, infinity included. A plain negative numeral of 64 bits
that is no signed integer passes through `binary64`; every other numeral is rounded once. -/
def round (F : Format) (n : Numeral) : Number F :=
  match n.integer? with
  | some i => .ofInt F i
  | none =>
    if n.plain ∧ n.negative ∧ n.coefficient < Nat.pow 2 64 then
      (Number.ofDecimal .binary64 true n.magnitude).convert F
    else .ofDecimal F n.negative (n.magnitude.abridge (digitsRead F))

/-- The number that a numeral is read as, if it is in range. -/
def toNumber? (F : Format) (n : Numeral) : Option (Number F) :=
  if (n.round F).isInfinite then none else some (n.round F)

end Numeral

end ArithTree.Json
