/-!
# Binary floating-point formats

A format is read as an ordered list of magnitudes. Magnitude number `k`, its *rank*, is worth
`units k` times the format's least positive value, so that ranks and units are plain natural numbers
and every question about a magnitude is a question about them. Trees are over double precision
unless they are asked to be over single precision, which works the same way (`SPEC_FULL.md`, A.1).

* `Format.units`: the magnitude of a rank, subnormal ranks included.
* `Format.infinityRank`: the rank one past the largest finite magnitude. Its units are what the
  magnitude would be if the exponent range went on, which is the bound that rounding uses.
* `Format.floorRank`: the largest rank whose magnitude is at most a whole number of units.
* `Format.nearestRank`: the rank nearest to a quotient of units, ties to even. Every operation of the
  library rounds one exact quotient once, through this function.
-/

namespace ArithTree

/-- The two formats a tree can be built over. -/
inductive Format where
  | binary32
  | binary64
  deriving DecidableEq, Repr

namespace Format

/-- The name that messages use for a format. -/
def name : Format → String
  | .binary32 => "f32"
  | .binary64 => "f64"

/-- Stored bits of the significand. -/
def fractionBits : Format → Nat
  | .binary32 => 23
  | .binary64 => 52

/-- Bits of the exponent field. -/
def exponentBits : Format → Nat
  | .binary32 => 8
  | .binary64 => 11

/-- The least positive value is two to the power of `-scale`. -/
def scale : Format → Nat
  | .binary32 => 149
  | .binary64 => 1074

/-- The bits below the sign. -/
def magnitudeBits (F : Format) : Nat := F.exponentBits + F.fractionBits

/-- All bits: the sign, the exponent field and the fraction. -/
def width (F : Format) : Nat := F.magnitudeBits + 1

/-- The weight of the bit in front of the fraction, which a normal magnitude has without storing it.
It is also the number of ranks that share an exponent field. -/
def hiddenBit (F : Format) : Nat := Nat.pow 2 F.fractionBits

/-- The value one, in units. -/
def unitsPerOne (F : Format) : Nat := Nat.pow 2 F.scale

/-- The rank of infinity: every exponent bit set, every fraction bit clear. -/
def infinityRank (F : Format) : Nat := (Nat.pow 2 F.exponentBits - 1) * F.hiddenBit

/-! ## Ranks and units -/

/-- The magnitude of rank `k` in units of the least positive value. The exponent field is
`k / hiddenBit` and the fraction `k % hiddenBit`; a zero exponent field marks the subnormals, which
have no hidden bit. -/
def units (F : Format) (k : Nat) : Nat :=
  if k / F.hiddenBit = 0 then k
  else (F.hiddenBit + k % F.hiddenBit) * Nat.pow 2 (k / F.hiddenBit - 1)

/-- The largest rank whose magnitude is at most `n` units: the leading bits of `n` as the
significand, and the number of bits left out as the exponent. -/
def floorRank (F : Format) (n : Nat) : Nat :=
  (n.log2 - F.fractionBits) * F.hiddenBit + n / Nat.pow 2 (n.log2 - F.fractionBits)

theorem hiddenBit_pos (F : Format) : 0 < F.hiddenBit := Nat.two_pow_pos _

theorem unitsPerOne_pos (F : Format) : 0 < F.unitsPerOne := Nat.two_pow_pos _

theorem infinityRank_pos (F : Format) : 0 < F.infinityRank := by cases F <;> decide

theorem infinityRank_lt (F : Format) : F.infinityRank < Nat.pow 2 F.magnitudeBits := by
  cases F <;> decide

theorem units_subnormal (F : Format) {k : Nat} (h : k < F.hiddenBit) : F.units k = k := by
  simp [units, Nat.div_eq_of_lt h]

theorem units_normal (F : Format) {k : Nat} (h : F.hiddenBit ≤ k) :
    F.units k = (F.hiddenBit + k % F.hiddenBit) * Nat.pow 2 (k / F.hiddenBit - 1) := by
  have : k / F.hiddenBit ≠ 0 := Nat.ne_of_gt (Nat.div_pos h F.hiddenBit_pos)
  simp [units, this]

/-! ## Rounding to nearest, ties to even

The exact quotient lies between the magnitudes of two neighbouring ranks and is compared with the
point halfway between them; a tie goes to the even rank, which is the one with an even significand.
Overflow needs no case of its own: beyond the largest finite magnitude the neighbouring rank is that
of infinity. -/

/-- Of rank `k` and the next one, the nearer to `n / d` units. -/
def nearerRank (F : Format) (n d k : Nat) : Nat :=
  match compare (2 * n) ((F.units k + F.units (k + 1)) * d) with
  | .lt => k
  | .gt => k + 1
  | .eq => if k % 2 = 0 then k else k + 1

/-- The rank nearest to `n / d` units; infinity is the last one. -/
def nearestRank (F : Format) (n d : Nat) : Nat :=
  min (F.nearerRank n d (F.floorRank (n / d))) F.infinityRank

theorem nearestRank_le (F : Format) (n d : Nat) : F.nearestRank n d ≤ F.infinityRank :=
  Nat.min_le_right _ _

end Format

end ArithTree
