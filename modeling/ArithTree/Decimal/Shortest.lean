import ArithTree.Binary.Number

/-!
# The fewest digits that read back

The values that round to a number form an interval around it: its ends lie halfway to the two
neighbouring magnitudes and belong to it exactly if the number's rank is even. Among the decimals
in that interval `Number.shortest` takes one on the coarsest decimal grid, hence with the fewest
digits, and of the grid's two points around the number the nearer one that lies inside. Where both
are equally near, which the specification leaves open (`SPEC_FULL.md`, section 9), `Tie` decides.

All of it is done on natural numbers: one unit of the format, `2 ^ -scale`, is `5 ^ scale` steps
of `10 ^ -scale`.
-/

namespace ArithTree

/-- Which of two equally near grid points is taken. -/
inductive Tie where
  /-- The one farther from zero. -/
  | away
  /-- The one whose last digit is even. -/
  | even
  deriving DecidableEq, Repr

/-- Of the neighbours `c` and `c + 1`, the one that the rule takes. -/
def Tie.pick (tie : Tie) (c : Nat) : Nat :=
  match tie with
  | .away => c + 1
  | .even => if c % 2 = 0 then c else c + 1

/-- An interval of natural numbers given by the doubles of its ends. -/
structure Interval where
  doubledLower : Nat
  doubledUpper : Nat
  /-- Whether the ends belong to the interval. -/
  closed : Bool
  deriving DecidableEq

namespace Interval

def contains (I : Interval) (n : Nat) : Bool :=
  if I.closed then I.doubledLower ≤ 2 * n && 2 * n ≤ I.doubledUpper
  else I.doubledLower < 2 * n && 2 * n < I.doubledUpper

/-- Of the two multiples of `step` around `v`, counted in steps, the nearer one. -/
def nearer (tie : Tie) (v step : Nat) : Nat :=
  match compare (2 * v) ((2 * (v / step) + 1) * step) with
  | .lt => v / step
  | .gt => v / step + 1
  | .eq => tie.pick (v / step)

/-- The multiple of `step` next to `v` that lies in the interval, counted in steps; the nearer one
if both do. -/
def onGrid? (I : Interval) (tie : Tie) (v step : Nat) : Option Nat :=
  match I.contains (v / step * step), I.contains ((v / step + 1) * step) with
  | true, true => some (nearer tie v step)
  | true, false => some (v / step)
  | false, true => some (v / step + 1)
  | false, false => none

/-- The point for `v` on the coarsest grid `10 ^ j` that has one, for `j` up to a bound. -/
def coarsest (I : Interval) (tie : Tie) (v : Nat) : Nat → Decimal
  | 0 => ⟨v, 0⟩
  | j + 1 =>
    match I.onGrid? tie v (Nat.pow 10 (j + 1)) with
    | some c => ⟨c, (j + 1 : Nat)⟩
    | none => I.coarsest tie v j

end Interval

/-- A unit of the format in steps of `10 ^ -scale`. -/
def Format.stepsPerUnit (F : Format) : Nat := Nat.pow 5 F.scale

namespace Number

variable {F : Format}

/-- The magnitude of a finite number in steps of `10 ^ -scale`. -/
def steps (x : Number F) : Nat := x.units * F.stepsPerUnit

/-- The values that round to the magnitude of a finite number, in steps of `10 ^ -scale`. -/
def roundingInterval (x : Number F) : Interval where
  doubledLower := (F.units (x.rank - 1) + x.units) * F.stepsPerUnit
  doubledUpper := (x.units + F.units (x.rank + 1)) * F.stepsPerUnit
  closed := x.rank % 2 == 0

/-- The shortest decimal that rounds to the magnitude of a finite number, and of those the nearest.
A grid coarser than `10 ^ (log2 v / 3 + 1)` has no point besides zero near `v`. -/
def shortest (tie : Tie) (x : Number F) : Decimal :=
  if x.isZero then ⟨0, 0⟩
  else
    let d := x.roundingInterval.coarsest tie x.steps (x.steps.log2 / 3 + 1)
    ⟨d.coefficient, d.exponent - F.scale⟩

end Number

end ArithTree
