import Mathlib.Tactic.Ring
import Lox.Number.Decimal
import Lox.Proofs.Number.Rank

/-!
The shortest decimal of a magnitude denotes that magnitude: `toNumber_shortest`. A form that is
found has been read back before it is taken; the last resort, with 1074 places, is exact.
-/
namespace Lox

def Decimal.rank (decimal : Decimal) : Nat :=
  Number.nearestRank (decimal.coefficient * Number.one) (10 ^ decimal.places)

theorem Decimal.toNumber_eq (decimal : Decimal) :
    decimal.toNumber = Number.ofRank false decimal.rank := rfl

namespace Number

theorem ofRank_lt (negative : Bool) (rank : Fin finiteCount) :
    ofRank negative rank = finite negative rank :=
  dif_pos rank.isLt

section
variable {rank : Nat} {decimal : Decimal}

theorem wholeAt?_rank {zeros : Nat} (found : wholeAt? rank zeros = some decimal) :
    decimal.rank = rank := by
  rcases Option.map_eq_some_iff.mp found with ⟨count, taken, rfl⟩
  have reads := List.find?_some taken
  exact of_decide_eq_true reads

theorem wholeForm_rank {zeros : Nat} (found : wholeForm rank zeros = some decimal) :
    decimal.rank = rank := by
  induction zeros with
  | zero => cases found
  | succ zeros ih =>
    rcases Option.or_eq_some_iff.mp found with first | ⟨-, later⟩
    · exact wholeAt?_rank first
    · exact ih later

theorem fractionAt?_rank {places : Nat} (found : fractionAt? rank places = some decimal) :
    decimal.rank = rank := by
  rcases Option.map_eq_some_iff.mp found with ⟨count, taken, rfl⟩
  have reads := List.find?_some taken
  exact of_decide_eq_true reads

theorem getD_rank {found : Option Decimal} (first : ∀ decimal, found = some decimal →
    decimal.rank = rank) (other : decimal.rank = rank) : (found.getD decimal).rank = rank := by
  cases found with
  | none => exact other
  | some taken => exact first taken rfl

end

/-- With as many places as there are halvings in a unit, a magnitude is written exactly. -/
theorem nearestRank_exact (rank halvings : Nat) :
    nearestRank (units rank * 5 ^ halvings * 2 ^ halvings) (10 ^ halvings) = rank := by
  have scaled : units rank * 5 ^ halvings * 2 ^ halvings = units rank * 10 ^ halvings := by
    rw [Nat.mul_assoc, ← Nat.mul_pow]
  rw [scaled]
  exact nearestRank_units rank (Nat.pow_pos (by decide))

theorem fractionForm_rank (rank fuel places : Nat) : (fractionForm rank fuel places).rank = rank := by
  induction fuel generalizing places with
  | zero => exact nearestRank_exact rank 1074
  | succ fuel ih => exact getD_rank (fun _ => fractionAt?_rank) (ih (places + 1))

theorem shortest_rank (rank : Nat) : (shortest rank).rank = rank :=
  getD_rank (fun _ => wholeForm_rank) (fractionForm_rank rank 1074 1)

theorem toNumber_shortest (rank : Fin finiteCount) :
    (shortest rank).toNumber = finite false rank := by
  rw [Decimal.toNumber_eq, shortest_rank, ofRank_lt]

end Number
end Lox
