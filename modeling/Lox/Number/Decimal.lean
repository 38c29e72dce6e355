import Lox.Number.Rounding

/-!
Decimal notation. A decimal is a whole coefficient and a count of places after the point, and its
text is positional: digits, a point, and at least one digit. A number has two texts: its source
text, the shortest that reads back as the same number, and its display text, rounded to three
places.
-/
namespace Lox

def digitChar (digit : Nat) : Char := Char.ofNat (48 + digit)

def digits (n : Nat) : List Char :=
  if n < 10 then [digitChar n] else digits (n / 10) ++ [digitChar (n % 10)]

/-- `coefficient / 10 ^ places`. -/
structure Decimal where
  coefficient : Nat
  places : Nat
  deriving DecidableEq

namespace Decimal

def toNumber (decimal : Decimal) : Number :=
  Number.nearest false (decimal.coefficient * Number.one) (Nat.pow 10 decimal.places)

def text (decimal : Decimal) : String :=
  let written := digits decimal.coefficient
  let padded := List.replicate (decimal.places + 1 - written.length) '0' ++ written
  let whole := padded.take (padded.length - decimal.places)
  let fraction := padded.drop (padded.length - decimal.places)
  String.ofList (whole ++ '.' :: if fraction.isEmpty then ['0'] else fraction)

end Decimal

namespace Number

/-- Of the two multiples of `step` units on either side of a magnitude, the nearer first; both at
the same distance, the even one first. -/
def neighbours (amount step : Nat) : List Nat :=
  let below := amount / step
  let nearer := halfEven amount step
  [nearer, if nearer = below then below + 1 else below]

def wholeAt? (rank zeros : Nat) : Option Decimal :=
  let step := Nat.pow 10 zeros
  ((neighbours (units rank) (step * one)).find?
    fun count => nearestRank (count * step * one) 1 = rank).map fun count => ⟨count * step, 0⟩

def wholeForm (rank : Nat) : Nat → Option Decimal
  | 0 => none
  | zeros + 1 => (wholeAt? rank zeros).or (wholeForm rank zeros)

def fractionAt? (rank places : Nat) : Option Decimal :=
  let scale := Nat.pow 10 places
  ((neighbours (units rank * scale) one).find?
    fun count => nearestRank (count * one) scale = rank).map fun count => ⟨count, places⟩

/-- The decimal with the fewest places, from `places` on, that reads back as the magnitude. With
1074 places every magnitude is written exactly. -/
def fractionForm (rank : Nat) : Nat → Nat → Decimal
  | 0, _ => ⟨units rank * Nat.pow 5 1074, 1074⟩
  | fuel + 1, places => (fractionAt? rank places).getD (fractionForm rank fuel (places + 1))

def shortest (rank : Nat) : Decimal :=
  (wholeForm rank (digits (units rank / one)).length).getD (fractionForm rank 1074 1)

def signText (negative : Bool) : String := if negative then "-" else ""

def finiteSource (negative : Bool) (rank : Nat) : String :=
  signText negative ++ (shortest rank).text

def threePlaces (thousandths : Nat) : Decimal :=
  if thousandths % 100 = 0 then ⟨thousandths / 100, 1⟩
  else if thousandths % 10 = 0 then ⟨thousandths / 10, 2⟩
  else ⟨thousandths, 3⟩

def thousandths (rank : Nat) : Nat := halfEven (units rank * 1000) one

def display : Number → String
  | nan => "NaN"
  | infinite negative => signText negative ++ "inf"
  | finite negative rank => signText negative ++ (threePlaces (thousandths rank)).text

def source : Number → String
  | finite negative rank => finiteSource negative rank
  | other => other.display

end Number
end Lox
