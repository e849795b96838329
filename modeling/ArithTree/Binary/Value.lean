import ArithTree.Binary.Number

/-!
# Values of a format, NaN included

Evaluation can leave the numbers: `∞ - ∞` and `0 · ∞` are NaN. A `Value F` is a number or NaN; the
payload and the sign of a NaN are not kept, because nothing reads them. The three operations are those
of evaluation (`SPEC_FULL.md`, 4.1).

* `Value.add`, `Value.mul`, `Value.neg`: the exact result, rounded once, with the sign of an exact
  zero sum negative only if both operands are.
* `Value.ofBits`, `Number.toBits`: the interchange encoding. The bits below the sign are the rank;
  those above the rank of infinity are the NaNs.
-/

namespace ArithTree

/-- A floating-point value of the format. -/
inductive Value (F : Format) where
  | nan
  | number (x : Number F)
  deriving DecidableEq

namespace Number

variable {F : Format}

/-- The sum of two numbers; infinities of opposite sign have none. -/
def add (x y : Number F) : Value F :=
  if x.isInfinite then
    if y.isInfinite && x.negative != y.negative then .nan else .number x
  else if y.isInfinite then .number y
  else
    let sum := x.signedUnits + y.signedUnits
    .number (if sum = 0 then zero (x.negative && y.negative)
      else nearest F (decide (sum < 0)) sum.natAbs 1)

/-- The product of two numbers; zero times infinity has none. -/
def mul (x y : Number F) : Value F :=
  let negative := x.negative != y.negative
  if x.isInfinite || y.isInfinite then
    if x.isZero || y.isZero then .nan else .number (infinity negative)
  else .number (nearest F negative (x.units * y.units) F.unitsPerOne)

/-- The interchange encoding. -/
def toBits (x : Number F) : BitVec F.width :=
  BitVec.ofNat F.width ((if x.negative then Nat.pow 2 F.magnitudeBits else 0) + x.rank)

end Number

namespace Value

variable {F : Format}

def add : Value F → Value F → Value F
  | .number x, .number y => x.add y
  | _, _ => .nan

def mul : Value F → Value F → Value F
  | .number x, .number y => x.mul y
  | _, _ => .nan

def neg : Value F → Value F
  | .nan => .nan
  | .number x => .number x.neg

/-- The value of another format nearest to `v`; NaN stays NaN. -/
def convert (G : Format) : Value F → Value G
  | .nan => .nan
  | .number x => .number (x.convert G)

/-- The value with the given encoding. -/
def ofBits (bits : BitVec F.width) : Value F :=
  let rank := bits.toNat % Nat.pow 2 F.magnitudeBits
  if h : rank ≤ F.infinityRank then .number ⟨bits.msb, rank, h⟩ else .nan

/-- A number is what its encoding stands for. -/
theorem ofBits_toBits (x : Number F) : ofBits x.toBits = .number x := by
  have h := Nat.lt_of_le_of_lt x.rank_le F.infinityRank_lt
  have hw : Nat.pow 2 F.width = Nat.pow 2 F.magnitudeBits + Nat.pow 2 F.magnitudeBits := by
    show 2 ^ (F.magnitudeBits + 1) = 2 ^ F.magnitudeBits + 2 ^ F.magnitudeBits
    rw [Nat.pow_succ]; omega
  obtain ⟨s, k, hk⟩ := x
  have hn : (Number.toBits ⟨s, k, hk⟩ : BitVec F.width).toNat
      = (if s then Nat.pow 2 F.magnitudeBits else 0) + k := by
    rw [Number.toBits, BitVec.toNat_ofNat]
    apply Nat.mod_eq_of_lt
    show _ < Nat.pow 2 F.width
    rw [hw]; simp only at h ⊢; split <;> omega
  have hm : ((if s then Nat.pow 2 F.magnitudeBits else 0) + k) % Nat.pow 2 F.magnitudeBits = k := by
    cases s
    · simpa using Nat.mod_eq_of_lt h
    · simpa using Nat.mod_eq_of_lt h
  have hs : (Number.toBits ⟨s, k, hk⟩ : BitVec F.width).msb = s := by
    rw [BitVec.msb_eq_decide, hn]
    show decide (Nat.pow 2 F.magnitudeBits ≤ _) = s
    simp only at h
    cases s with
    | false =>
      simp
      omega
    | true => simp
  simp only [ofBits, hn, hm, hs, hk, dite_true]

end Value

end ArithTree
