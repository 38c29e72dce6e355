/-!
Numbers are the 64-bit binary floating-point numbers. The finite magnitudes are listed in
increasing order, and a magnitude is its place in that list, its rank: rank 0 is zero and rank 1
is 2^-1074. Every finite magnitude is a whole number of such units, so comparing, adding and
rounding are statements about natural numbers.
-/
namespace Lox

/-- How many finite magnitudes there are; the rank after the last one is that of infinity. -/
abbrev Number.finiteCount : Nat := 0x7ff0000000000000

inductive Number where
  | nan
  | infinite (negative : Bool)
  | finite (negative : Bool) (rank : Fin Number.finiteCount)
  deriving DecidableEq

namespace Number

/-- The magnitude at a rank, in units of 2^-1074. Within one binade the units grow evenly, and
from one binade to the next their step doubles. -/
def units (rank : Nat) : Nat :=
  let binade := Nat.pow 2 52
  if rank < binade then rank
  else (binade + rank % binade) * Nat.pow 2 (rank / binade - 1)

def one : Nat := Nat.pow 2 1074

def zero (negative : Bool) : Number := finite negative 0

def ofRank (negative : Bool) (rank : Nat) : Number :=
  if h : rank < finiteCount then finite negative ⟨rank, h⟩ else infinite negative

def signUnit : Nat := 0x8000000000000000

/-- The interchange encoding: the sign above the rank, and infinity at the rank after the last. -/
def ofBits (bits : Nat) : Number :=
  let negative := bits / signUnit % 2 == 1
  let rank := bits % signUnit
  if rank ≤ finiteCount then ofRank negative rank else nan

def toBits : Number → Option Nat
  | nan => none
  | infinite negative => some (negative.toNat * signUnit + finiteCount)
  | finite negative rank => some (negative.toNat * signUnit + rank)

def key : Number → Option Int
  | nan => none
  | infinite negative => some (if negative then -finiteCount else finiteCount)
  | finite negative rank => some (if negative then -(rank : Int) else rank)

def related (relation : Int → Int → Bool) (x y : Number) : Bool :=
  match x.key, y.key with
  | some place, some other => relation place other
  | _, _ => false

def equal : Number → Number → Bool := related (· == ·)

def less : Number → Number → Bool := related (· < ·)

def atMost : Number → Number → Bool := related (· ≤ ·)

def signedUnits (negative : Bool) (rank : Nat) : Int :=
  if negative then -(units rank : Int) else units rank

end Number
end Lox
