import Lox.Number.Basic

/-!
Rounding a quotient to the nearest number, a quotient halfway between two numbers to the one of
even rank, and rounding a quotient to the nearest natural number by the same rule for halves.
-/
namespace Lox.Number

def floorRank (amount : Nat) : Nat :=
  let shift := amount.log2 - 52
  shift * Nat.pow 2 52 + amount / Nat.pow 2 shift

def nearer (order : Ordering) (below : Nat) : Nat :=
  match order with
  | .lt => below
  | .gt => below + 1
  | .eq => if below % 2 = 0 then below else below + 1

/-- The rank nearest to `numerator / denominator` units: the quotient lies between two neighbours,
and twice the quotient is compared with their sum. -/
def nearestRank (numerator denominator : Nat) : Nat :=
  let below := floorRank (numerator / denominator)
  nearer (compare (2 * numerator) ((units below + units (below + 1)) * denominator)) below

def nearest (negative : Bool) (numerator denominator : Nat) : Number :=
  ofRank negative (nearestRank numerator denominator)

def halfEven (numerator denominator : Nat) : Nat :=
  nearer (compare (2 * (numerator % denominator)) denominator) (numerator / denominator)

end Lox.Number
