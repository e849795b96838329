import ArithTree.Binary.Format
import ArithTree.Decimal.Basic

/-!
# Numbers of a format

A `Number F` is a sign and a rank that is at most the rank of infinity: every value of the format
but NaN, and NaN cannot be written down in the type (`SPEC_FULL.md`, section 3, NumberLiteral, and
A.2). Section 3 speaks of finite values; infinities are allowed by A.11, where only NaN is refused.
Both zeros are there, with one bit between them.

* `Number.compare` orders numbers by value: the sign turns the rank around, and the two zeros
  meet at `signedRank` zero.
* `Number.isIntegral` asks whether the value is its own floor; infinities are.
* `Number.nearest`, `Number.ofInt`, `Number.convert`, `Number.ofDecimal` round an exact value once.
-/

namespace ArithTree

/-- A floating-point value of the format that is not NaN, which is the invariant of a literal
(section 3). -/
@[ext] structure Number (F : Format) where
  /-- The sign bit. -/
  negative : Bool
  /-- The magnitude, as its place in the format's list of magnitudes. -/
  rank : Nat
  rank_le : rank ≤ F.infinityRank
  deriving DecidableEq

namespace Number

variable {F : Format}

/-- Zero of the given sign. -/
def zero (negative : Bool) : Number F := ⟨negative, 0, Nat.zero_le _⟩

/-- Infinity of the given sign. -/
def infinity (negative : Bool) : Number F := ⟨negative, F.infinityRank, Nat.le_refl _⟩

/-- The number of the given sign whose magnitude is nearest to `n / d` units. -/
def nearest (F : Format) (negative : Bool) (n d : Nat) : Number F :=
  ⟨negative, F.nearestRank n d, F.nearestRank_le n d⟩

def isInfinite (x : Number F) : Bool := x.rank == F.infinityRank

def isZero (x : Number F) : Bool := x.rank == 0

/-- The magnitude in units of the format. -/
def units (x : Number F) : Nat := F.units x.rank

/-- The value in units of the format, of a finite number. -/
def signedUnits (x : Number F) : Int := if x.negative then -(x.units : Int) else x.units

/-- A number is integral when it equals its own floor (`SPEC_FULL.md`, 4.1, render): an infinity
(A.11), or a finite number with nothing behind the binary point. -/
def isIntegral (x : Number F) : Bool := x.isInfinite || x.units % F.unitsPerOne == 0

/-- The same magnitude with the other sign. -/
def neg (x : Number F) : Number F := ⟨!x.negative, x.rank, x.rank_le⟩

theorem zero_eq_of_rank_eq_zero {x : Number F} (hrank : x.rank = 0) : zero x.negative = x :=
  Number.ext rfl hrank.symm

theorem ne_neg (x : Number F) : x ≠ x.neg := by
  intro h
  have hsign : x.negative = !x.negative := congrArg negative h
  simp at hsign

theorem isInfinite_iff {x : Number F} : x.isInfinite ↔ x.rank = F.infinityRank := beq_iff_eq

theorem isInfinite_eq_false_iff {x : Number F} : x.isInfinite = false ↔ x.rank < F.infinityRank := by
  unfold isInfinite
  rw [beq_eq_false_iff_ne]
  exact (Nat.lt_iff_le_and_ne.trans (and_iff_right x.rank_le)).symm

theorem isZero_iff {x : Number F} : x.isZero ↔ x.rank = 0 := beq_iff_eq

theorem isZero_eq_false_iff {x : Number F} : x.isZero = false ↔ 0 < x.rank := by
  unfold isZero
  rw [beq_eq_false_iff_ne]
  exact Nat.pos_iff_ne_zero.symm

/-! ## Order -/

/-- The rank with the sign of the number; both zeros have signed rank zero. -/
def signedRank (x : Number F) : Int := if x.negative then -(x.rank : Int) else x.rank

/-- The order of the values. -/
def compare (x y : Number F) : Ordering := Ord.compare x.signedRank y.signedRank

/-- Equality of the values, which differs from equality of numbers at the zeros only. -/
def sameValue (x y : Number F) : Bool := x.signedRank == y.signedRank

@[simp] theorem neg_neg (x : Number F) : x.neg.neg = x := by
  cases x; simp [neg]

@[simp] theorem signedRank_neg (x : Number F) : x.neg.signedRank = -x.signedRank := by
  cases x with | mk s k h => cases s <;> simp [neg, signedRank]

theorem sameValue_iff {x y : Number F} : x.sameValue y ↔ x.signedRank = y.signedRank := by
  simp [sameValue]

theorem compare_eq_eq_iff {x y : Number F} : x.compare y = .eq ↔ x.sameValue y := by
  simp [compare, sameValue_iff]

theorem compare_eq_lt_iff {x y : Number F} : x.compare y = .lt ↔ x.signedRank < y.signedRank := by
  simp [compare, Int.compare_eq_lt]

/-! ## Exact values, rounded -/

/-- The number nearest to an integer. -/
def ofInt (F : Format) (i : Int) : Number F :=
  nearest F (decide (i < 0)) (i.natAbs * F.unitsPerOne) 1

/-- The number of another format nearest to `x`. A narrower format may overflow to infinity, a
wider one holds every value. -/
def convert (G : Format) (x : Number F) : Number G :=
  if x.isInfinite then infinity x.negative
  else nearest G x.negative (x.units * G.unitsPerOne) F.unitsPerOne

end Number

/-- Every value of `10 ^ decimalReach` or more is infinite in both formats, and every value below
`10 ^ -decimalReach` is nearest to zero. -/
def decimalReach : Nat := 400

namespace Number

/-- The number of the given sign nearest to a decimal. An exponent can be far larger than any power
of ten worth computing, so decimals beyond `decimalReach` are settled by their size. A coefficient of
`b` bits is below `10 ^ b`, which bounds the decimal from above. -/
def ofDecimal (F : Format) (negative : Bool) (d : Decimal) : Number F :=
  if d.coefficient = 0 then zero negative
  else if (decimalReach : Int) ≤ d.exponent then infinity negative
  else if d.exponent + (d.coefficient.log2 + 1 : Nat) ≤ -(decimalReach : Int) then zero negative
  else match d.exponent with
    | .ofNat n => nearest F negative (d.coefficient * Nat.pow 10 n * F.unitsPerOne) 1
    | .negSucc n => nearest F negative (d.coefficient * F.unitsPerOne) (Nat.pow 10 (n + 1))

end Number

end ArithTree
