/-!
# Decimals and their two notations

A `Decimal` is a coefficient times a power of ten. It is written positionally, with all of its
digits, or with an exponent behind the leading digit.

* `Decimal.positional`: a whole number has no point; any other has its integer part, the point and
  exactly as many decimals as its exponent asks for.
* `Decimal.scientific`: the leading digit, the other digits behind a point if there are any, and
  the exponent of the leading digit.
* `Decimal.abridge`: a decimal of bounded length in place of one with too many digits.
-/

namespace ArithTree

/-- `coefficient · 10 ^ exponent`. -/
structure Decimal where
  coefficient : Nat
  exponent : Int
  deriving DecidableEq, Repr

namespace Decimal

/-- The decimal digits of a natural number, without leading zeros; zero has one digit. -/
def digits (n : Nat) : List Char := Nat.toDigits 10 n

/-- The digits of `n`, with zeros in front up to the given width. -/
def paddedDigits (width n : Nat) : List Char := (digits n).leftpad width '0'

/-- The exponent of the leading digit. -/
def leadingExponent (d : Decimal) : Int := d.exponent + (digits d.coefficient).length - 1

/-- The decimal with no more than its first `n` digits, and a single one in the place of all further
digits if there are any, whatever they are. -/
def abridge (n : Nat) (d : Decimal) : Decimal :=
  if d.coefficient < Nat.pow 10 n then d
  else
    let further := (digits d.coefficient).length - n
    ⟨d.coefficient / Nat.pow 10 further * 10 + 1, d.exponent + (further - 1 : Nat)⟩

/-- The decimal with all its digits, and a point only if there are decimals behind it. -/
def positional (d : Decimal) : List Char :=
  match d.exponent with
  | .ofNat n => digits (d.coefficient * Nat.pow 10 n)
  | .negSucc n =>
    digits (d.coefficient / Nat.pow 10 (n + 1)) ++
      '.' :: paddedDigits (n + 1) (d.coefficient % Nat.pow 10 (n + 1))

/-- The decimal with all its digits and at least one decimal. -/
def positionalWithPoint (d : Decimal) : List Char :=
  if 0 ≤ d.exponent then d.positional ++ ['.', '0'] else d.positional

/-- An exponent, with a plus sign on demand. -/
def exponentText (plusSign : Bool) (e : Int) : List Char :=
  (if e < 0 then ['-'] else if plusSign then ['+'] else []) ++ digits e.natAbs

/-- The leading digit, the further digits behind a point, and the exponent. -/
def scientific (plusSign : Bool) (d : Decimal) : List Char :=
  (digits d.coefficient).take 1 ++
    (if 1 < (digits d.coefficient).length then '.' :: (digits d.coefficient).drop 1 else []) ++
    'e' :: exponentText plusSign d.leadingExponent

/-! ## Digits -/

@[simp] theorem ofDigitChars_digits (n : Nat) : Nat.ofDigitChars 10 (digits n) 0 = n :=
  Nat.ofDigitChars_toDigits (by decide) (by decide)

theorem abridge_of_lt {n : Nat} {d : Decimal} (h : d.coefficient < Nat.pow 10 n) :
    d.abridge n = d := by
  simp only [abridge, h, if_true]

theorem digits_ne_nil (n : Nat) : digits n ≠ [] := Nat.toDigits_ne_nil

theorem isDigit_of_mem_digits {c : Char} {n : Nat} (h : c ∈ digits n) : c.isDigit :=
  Nat.isDigit_of_mem_toDigits (by decide) (by decide) h

end Decimal

end ArithTree
