import Mathlib.Tactic.Ring
import Lox.Number.Rounding

namespace Lox.Number

theorem units_eq (rank : Nat) : units rank =
    if rank < 2 ^ 52 then rank else (2 ^ 52 + rank % 2 ^ 52) * 2 ^ (rank / 2 ^ 52 - 1) := rfl

theorem floorRank_eq (amount : Nat) : floorRank amount =
    (amount.log2 - 52) * 2 ^ 52 + amount / 2 ^ (amount.log2 - 52) := rfl

theorem units_of_lt {rank : Nat} (small : rank < 2 ^ 52) : units rank = rank := if_pos small

theorem units_binade {binade place : Nat} (within : place < 2 ^ 52) :
    units ((binade + 1) * 2 ^ 52 + place) = (2 ^ 52 + place) * 2 ^ binade := by
  have quotient : ((binade + 1) * 2 ^ 52 + place) / 2 ^ 52 = binade + 1 := by omega
  have remainder : ((binade + 1) * 2 ^ 52 + place) % 2 ^ 52 = place := by omega
  rw [units_eq, if_neg (by omega), quotient, remainder, Nat.add_sub_cancel]

theorem rank_cases (rank : Nat) :
    rank < 2 ^ 52 ∨ ∃ binade place, place < 2 ^ 52 ∧ rank = (binade + 1) * 2 ^ 52 + place := by
  by_cases small : rank < 2 ^ 52
  · exact .inl small
  · exact .inr ⟨rank / 2 ^ 52 - 1, rank % 2 ^ 52, Nat.mod_lt _ (by norm_num), by omega⟩

theorem floorRank_units (rank : Nat) : floorRank (units rank) = rank := by
  rcases rank_cases rank with small | ⟨binade, place, within, rfl⟩
  · have shift : rank.log2 - 52 = 0 := by
      rcases Nat.eq_zero_or_pos rank with rfl | positive
      · rfl
      · have bound := (Nat.log2_lt (Nat.ne_of_gt positive)).mpr small
        omega
    rw [units_of_lt small, floorRank_eq, shift, Nat.pow_zero, Nat.div_one, Nat.zero_mul, Nat.zero_add]
  · rw [units_binade within]
    have positive := Nat.two_pow_pos binade
    have shift : ((2 ^ 52 + place) * 2 ^ binade).log2 - 52 = binade := by
      have nonzero : (2 ^ 52 + place) * 2 ^ binade ≠ 0 := by
        exact Nat.mul_ne_zero (by omega) (by omega)
      have log : ((2 ^ 52 + place) * 2 ^ binade).log2 = 52 + binade := by
        refine (Nat.log2_eq_iff nonzero).mpr ⟨?_, ?_⟩
        · rw [Nat.pow_add]
          exact Nat.mul_le_mul_right _ (by omega)
        · rw [show 52 + binade + 1 = 53 + binade by omega, Nat.pow_add]
          exact (Nat.mul_lt_mul_right positive).mpr (by omega)
      omega
    rw [floorRank_eq, shift, Nat.mul_div_cancel _ positive]
    omega

theorem units_lt_succ (rank : Nat) : units rank < units (rank + 1) := by
  rcases rank_cases rank with small | ⟨binade, place, within, rfl⟩
  · by_cases next : rank + 1 < 2 ^ 52
    · rw [units_of_lt small, units_of_lt next]
      exact Nat.lt_succ_self rank
    · have last : rank + 1 = (0 + 1) * 2 ^ 52 + 0 := by omega
      rw [units_of_lt small, last, units_binade (by norm_num)]
      omega
  · have positive := Nat.two_pow_pos binade
    rw [units_binade within]
    by_cases next : place + 1 < 2 ^ 52
    · rw [Nat.add_assoc, units_binade next]
      exact (Nat.mul_lt_mul_right positive).mpr (by omega)
    · have last : (binade + 1) * 2 ^ 52 + place + 1 = (binade + 1 + 1) * 2 ^ 52 + 0 := by omega
      rw [last, units_binade (by norm_num), Nat.pow_succ, Nat.add_zero]
      calc (2 ^ 52 + place) * 2 ^ binade < (2 ^ 52 * 2) * 2 ^ binade :=
            (Nat.mul_lt_mul_right positive).mpr (by omega)
        _ = 2 ^ 52 * (2 ^ binade * 2) := by ring

theorem nearestRank_eq {numerator denominator below : Nat}
    (same : floorRank (numerator / denominator) = below) :
    nearestRank numerator denominator =
      nearer (compare (2 * numerator) ((units below + units (below + 1)) * denominator)) below := by
  subst same
  rfl

theorem nearestRank_units (rank : Nat) {scale : Nat} (positive : 0 < scale) :
    nearestRank (units rank * scale) scale = rank := by
  have whole : floorRank (units rank * scale / scale) = rank := by
    rw [Nat.mul_div_cancel _ positive, floorRank_units]
  have below : 2 * (units rank * scale) < (units rank + units (rank + 1)) * scale := by
    have greater := units_lt_succ rank
    rw [← Nat.mul_assoc]
    exact (Nat.mul_lt_mul_right positive).mpr (by omega)
  rw [nearestRank_eq whole, Nat.compare_eq_lt.mpr below]
  rfl

theorem nearestRank_scale (numerator denominator : Nat) {scale : Nat} (positive : 0 < scale) :
    nearestRank (numerator * scale) (denominator * scale) = nearestRank numerator denominator := by
  have compared (bound : Nat) : compare (2 * (numerator * scale)) (bound * (denominator * scale)) =
      compare (2 * numerator) (bound * denominator) := by
    rw [← Nat.mul_assoc, ← Nat.mul_assoc, Nat.compare_eq_ite_lt, Nat.compare_eq_ite_lt]
    simp only [Nat.mul_lt_mul_right positive]
  simp only [nearestRank, Nat.mul_div_mul_right _ _ positive, compared]

end Lox.Number
