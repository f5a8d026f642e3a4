/-! # The roundest number of an interval

Of all numbers in an interval around `x`, the one that ends in the most zeros is the one
with the fewest digits to write.

* `Interval` is an interval of natural numbers, with or without its ends;
* `Interval.onGrid?` looks at one grid, the multiples of `unit`: only the two neighbours of
  `x` on it need a look, because an interval around `x` that meets the grid holds one of them;
* `Interval.roundest` takes the coarsest grid of a power of ten that is met.
-/

namespace SegmentCatalog.Decimal

structure Interval where
  lo : Nat
  hi : Nat
  /-- Whether the ends belong to it. -/
  closed : Bool

/-- What becomes of a number halfway between two grid points. -/
inductive Tie where
  /-- The upper one. -/
  | up
  /-- The even multiple. -/
  | even

namespace Interval

def contains (range : Interval) (n : Nat) : Bool :=
  if range.closed then range.lo ≤ n && n ≤ range.hi else range.lo < n && n < range.hi

/-- Whether `x` lies above the middle between its lower neighbour on the grid and the next
    one, or in the middle and `tie` moves it up. -/
def roundsUp (tie : Tie) (x unit : Nat) : Bool :=
  let twice := 2 * (x % unit)
  unit < twice || (twice == unit && match tie with
    | .up => true
    | .even => x / unit % 2 == 1)

/-- The neighbour of `x` among the multiples of `unit` that is in the interval, as a number
    of units; the nearer one if both are. -/
def onGrid? (range : Interval) (tie : Tie) (x unit : Nat) : Option Nat :=
  let below := x / unit
  let above := below + 1
  match range.contains (below * unit), range.contains (above * unit) with
  | true, true => some (if roundsUp tie x unit then above else below)
  | true, false => some below
  | false, true => some above
  | false, false => none

/-- The coarsest grid at or below the power `k` of ten that is met, and the number on it.
    The finest grid has every number, so there `x` itself is taken. -/
def coarsest (range : Interval) (tie : Tie) (x : Nat) : Nat → Nat × Nat
  | 0 => (x, 0)
  | k + 1 =>
    match range.onGrid? tie x (Nat.pow 10 (k + 1)) with
    | some n => (n, k + 1)
    | none => coarsest range tie x k

/-- The pair `(n, k)` for which `n * 10 ^ k` is in the interval, `k` is as large as can be,
    and `n * 10 ^ k` is as near to `x` as the grid allows. -/
def roundest (range : Interval) (tie : Tie) (x : Nat) : Nat × Nat :=
  coarsest range tie x (range.hi.log2 / 3 + 1)

end Interval

end SegmentCatalog.Decimal
