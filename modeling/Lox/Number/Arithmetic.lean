import Lox.Number.Rounding

namespace Lox.Number

def negate : Number → Number
  | nan => nan
  | infinite negative => infinite !negative
  | finite negative rank => finite (!negative) rank

/-- Two opposite numbers have the sum plus zero; a sum of two negative zeros keeps its sign. -/
def add : Number → Number → Number
  | nan, _ | _, nan => nan
  | infinite left, infinite right => if left = right then infinite left else nan
  | infinite left, finite _ _ => infinite left
  | finite _ _, infinite right => infinite right
  | finite left rank, finite right other =>
    let sum := signedUnits left rank + signedUnits right other
    if sum = 0 then zero (left && right) else nearest (sum < 0) sum.natAbs 1

def subtract (x y : Number) : Number := add x (negate y)

def multiply : Number → Number → Number
  | nan, _ | _, nan => nan
  | infinite left, infinite right => infinite (left != right)
  | infinite left, finite right rank | finite left rank, infinite right =>
    if rank.val = 0 then nan else infinite (left != right)
  | finite left rank, finite right other =>
    nearest (left != right) (units rank * units other) one

def divide : Number → Number → Number
  | nan, _ | _, nan => nan
  | infinite _, infinite _ => nan
  | infinite left, finite right _ => infinite (left != right)
  | finite left _, infinite right => zero (left != right)
  | finite left rank, finite right other =>
    if other.val = 0 then
      if rank.val = 0 then nan else infinite (left != right)
    else nearest (left != right) (units rank * one) (units other)

end Lox.Number
