import Mathlib.Data.Nat.Dist
import Lox.Proofs.Number.Rank

/-!
What rounding finds is nearest. No magnitude is nearer to a quotient than the one of the rank that
the quotient is rounded to: `nearestRank_nearest`. A whole number that a quotient is rounded to is
nearest to it, and of two equally near ones it is the even one: `halfEven_nearest`. This says all
of it, and larger quotients do not have smaller ones: `HalfEven.mono`, `HalfEven.unique`.
-/
namespace Lox.Number

theorem units_strictMono : StrictMono units := strictMono_nat_of_lt_succ units_lt_succ

/-- A rank as a number of steps of one size. The smallest magnitudes and the first binade share
theirs, and as many steps as a binade ends with reach the next one. -/
theorem units_steps {shift steps : Nat} (within : steps ≤ 2 ^ 53)
    (leading : shift = 0 ∨ 2 ^ 52 ≤ steps) : units (shift * 2 ^ 52 + steps) = steps * 2 ^ shift := by
  rcases Nat.lt_or_ge steps (2 ^ 52) with small | large
  · have first : shift = 0 := by omega
    rw [first, Nat.zero_mul, Nat.zero_add, units_of_lt small, Nat.pow_zero, Nat.mul_one]
  · rcases Nat.lt_or_ge steps (2 ^ 53) with inside | last
    · have split : shift * 2 ^ 52 + steps = (shift + 1) * 2 ^ 52 + (steps - 2 ^ 52) := by omega
      have whole : 2 ^ 52 + (steps - 2 ^ 52) = steps := by omega
      rw [split, units_binade (by omega), whole]
    · have split : shift * 2 ^ 52 + steps = (shift + 1 + 1) * 2 ^ 52 + 0 := by omega
      have whole : steps = 2 ^ 52 * 2 := by omega
      rw [split, units_binade (by norm_num), whole]
      ring

theorem floorRank_bounds (amount : Nat) :
    units (floorRank amount) ≤ amount ∧ amount < units (floorRank amount + 1) := by
  rw [floorRank_eq]
  generalize shifted : amount.log2 - 52 = shift
  have positive := Nat.two_pow_pos shift
  have within : amount / 2 ^ shift < 2 ^ 53 := by
    apply (Nat.div_lt_iff_lt_mul positive).mpr
    calc amount < 2 ^ (amount.log2 + 1) := Nat.lt_log2_self
      _ ≤ 2 ^ (53 + shift) := Nat.pow_le_pow_right (by norm_num) (by omega)
      _ = 2 ^ 53 * 2 ^ shift := Nat.pow_add 2 53 shift
  have leading : shift = 0 ∨ 2 ^ 52 ≤ amount / 2 ^ shift := by
    rcases Nat.eq_zero_or_pos shift with first | later
    · exact .inl first
    · right
      have nonzero : amount ≠ 0 := by
        rintro rfl
        simp at shifted
        omega
      apply (Nat.le_div_iff_mul_le positive).mpr
      calc 2 ^ 52 * 2 ^ shift = 2 ^ amount.log2 := by
            rw [← Nat.pow_add]
            congr 1
            omega
        _ ≤ amount := Nat.log2_self_le nonzero
  have next : shift = 0 ∨ 2 ^ 52 ≤ amount / 2 ^ shift + 1 := by omega
  rw [Nat.add_assoc, units_steps (by omega) leading, units_steps (by omega) next]
  exact ⟨Nat.div_mul_le_self amount _, Nat.lt_div_mul_add positive |>.trans_eq (by ring)⟩

theorem nearestRank_nearest (numerator : Nat) {denominator : Nat} (positive : 0 < denominator)
    (other : Nat) :
    Nat.dist numerator (units (nearestRank numerator denominator) * denominator) ≤
      Nat.dist numerator (units other * denominator) := by
  obtain ⟨low, high⟩ := floorRank_bounds (numerator / denominator)
  generalize found : floorRank (numerator / denominator) = below at low high
  have lower : units below * denominator ≤ numerator :=
    (Nat.le_div_iff_mul_le positive).mp low
  have upper : numerator < units (below + 1) * denominator :=
    (Nat.div_lt_iff_lt_mul positive).mp high
  -- No magnitude lies between the two that enclose the quotient.
  have outside : units other * denominator ≤ units below * denominator ∨
      units (below + 1) * denominator ≤ units other * denominator := by
    rcases Nat.lt_or_ge below other with above | notAbove
    · exact .inr (Nat.mul_le_mul_right _ (units_strictMono.monotone above))
    · exact .inl (Nat.mul_le_mul_right _ (units_strictMono.monotone notAbove))
  rw [nearestRank_eq found, Nat.add_mul]
  simp only [Nat.dist]
  cases order : compare (2 * numerator)
      (units below * denominator + units (below + 1) * denominator) with
  | lt =>
    have closer := Nat.compare_eq_lt.mp order
    simp only [nearer]
    omega
  | gt =>
    have farther := Nat.compare_eq_gt.mp order
    simp only [nearer]
    omega
  | eq =>
    have halfway := Nat.compare_eq_eq.mp order
    simp only [nearer]
    split <;> omega

/-- A whole number that is nearest to a quotient and, if another one is as near, even. -/
structure HalfEven (numerator denominator whole : Nat) : Prop where
  near : 2 * Nat.dist numerator (whole * denominator) ≤ denominator
  even : 2 * Nat.dist numerator (whole * denominator) = denominator → whole % 2 = 0

section
variable {numerator larger denominator whole other : Nat}

theorem halfEven_nearest (numerator : Nat) (positive : 0 < denominator) :
    HalfEven numerator denominator (halfEven numerator denominator) := by
  have parts := Nat.div_add_mod' numerator denominator
  have small := Nat.mod_lt numerator positive
  have further := Nat.add_one_mul (numerator / denominator) denominator
  rw [halfEven]
  cases order : compare (2 * (numerator % denominator)) denominator with
  | lt =>
    have closer := Nat.compare_eq_lt.mp order
    constructor <;> simp only [nearer, Nat.dist] <;> omega
  | gt =>
    have farther := Nat.compare_eq_gt.mp order
    constructor <;> simp only [nearer, Nat.dist] <;> omega
  | eq =>
    have halfway := Nat.compare_eq_eq.mp order
    simp only [nearer]
    split
    · constructor <;> simp only [Nat.dist] <;> omega
    · constructor <;> simp only [Nat.dist] <;> omega

/-- Between two wholes one apart there is room for one quotient only, and one of them is odd. -/
theorem HalfEven.mono (positive : 0 < denominator) (first : HalfEven numerator denominator whole)
    (second : HalfEven larger denominator other) (ordered : numerator ≤ larger) :
    whole ≤ other := by
  by_contra above
  have above : other + 1 ≤ whole := by omega
  have apart : other * denominator + denominator ≤ whole * denominator := by
    rw [← Nat.succ_mul]
    exact Nat.mul_le_mul_right denominator above
  obtain ⟨near, even⟩ := first
  obtain ⟨near', even'⟩ := second
  simp only [Nat.dist] at near even near' even'
  have beside : whole * denominator ≤ (other + 1) * denominator := by
    rw [Nat.succ_mul]
    omega
  have next := Nat.le_of_mul_le_mul_right beside positive
  omega

theorem HalfEven.unique (positive : 0 < denominator) (first : HalfEven numerator denominator whole)
    (second : HalfEven numerator denominator other) : whole = other :=
  Nat.le_antisymm (first.mono positive second (Nat.le_refl _))
    (second.mono positive first (Nat.le_refl _))

end
end Lox.Number
