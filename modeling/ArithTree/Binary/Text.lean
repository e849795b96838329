import ArithTree.Binary.Value
import ArithTree.Decimal.Shortest

/-!
# Texts of numbers

A number has three texts.

* `Number.text`, used when a tree is rendered (`SPEC_FULL.md`, 4.1, section 9 and A.11): integral
  numbers exactly, with all their digits and no point; all others positionally, with the fewest digits
  that read back.
* `Number.debugText`: the fewest digits, with a point or an exponent always.
* `Number.jsonText`: the same idea with the layout of JSON writers; an infinity has no JSON number
  and becomes `null`.

The last two differ in `NumberStyle` only. The sign is written whenever the sign bit is set, so
both zeros keep their text; infinities and the negative zero are written as A.11 has it.
-/

namespace ArithTree

/-- How the shortest decimal of a number is laid out. -/
structure NumberStyle where
  /-- The rule for two equally near decimals. -/
  tie : Tie
  /-- The least exponent of the leading digit that is written positionally. -/
  lowest : Int
  /-- The greatest exponent of the leading digit that is written positionally. -/
  highest : Int
  /-- Whether an exponent that is not negative gets a plus sign. -/
  plusSign : Bool

namespace NumberStyle

/-- Positional from `0.0001` up to, but not including, ten to the sixteenth. -/
def debug : NumberStyle := ⟨.away, -4, 15, false⟩

/-- The positional range depends on the format, exponents are signed, and ties go to the even
digit. -/
def json : Format → NumberStyle
  | .binary32 => ⟨.even, -6, 12, true⟩
  | .binary64 => ⟨.even, -5, 15, true⟩

/-- A decimal in this style: positional with at least one decimal, or with an exponent. -/
def write (s : NumberStyle) (d : Decimal) : List Char :=
  if s.lowest ≤ d.leadingExponent ∧ d.leadingExponent ≤ s.highest then d.positionalWithPoint
  else d.scientific s.plusSign

end NumberStyle

namespace Number

variable {F : Format}

/-- The sign as it is written. -/
def signText (x : Number F) : List Char := if x.negative then ['-'] else []

/-- The magnitude of a number in a rendered tree. -/
def magnitudeText (x : Number F) : List Char :=
  if x.isInfinite then ['i', 'n', 'f']
  else if x.isIntegral then Decimal.digits (x.units / F.unitsPerOne)
  else (x.shortest .away).positional

/-- The text of a number in a rendered tree. -/
def text (x : Number F) : List Char := x.signText ++ x.magnitudeText

/-- The text of a number in debug output. -/
def debugText (x : Number F) : List Char :=
  x.signText ++
    (if x.isInfinite then ['i', 'n', 'f']
     else NumberStyle.debug.write (x.shortest NumberStyle.debug.tie))

/-- The text of a number in JSON. -/
def jsonText (x : Number F) : List Char :=
  if x.isInfinite then ['n', 'u', 'l', 'l']
  else x.signText ++ (NumberStyle.json F).write (x.shortest (NumberStyle.json F).tie)

end Number

namespace Value

variable {F : Format}

/-- The text of a value in debug output; a NaN has no sign. -/
def debugText : Value F → List Char
  | .nan => ['N', 'a', 'N']
  | .number x => x.debugText

/-- The text of a value with all its digits: positional, with at least one decimal. -/
def plainText : Value F → List Char
  | .nan => ['N', 'a', 'N']
  | .number x =>
    x.signText ++
      (if x.isInfinite then ['i', 'n', 'f'] else (x.shortest .away).positionalWithPoint)

end Value

end ArithTree
