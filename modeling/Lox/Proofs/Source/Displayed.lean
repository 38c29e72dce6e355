import Lox.Proofs.Number.Display
import Lox.Proofs.Source.Numeral

/-!
The display text of a finite number as source text. It is read as the number nearest to the
thousandths that it shows, and that number is displayed by the same text: `display_reads_back`.
-/
namespace Lox

namespace Number

def rankOf (count : Nat) : Nat := nearestRank (count * one) 1000

theorem toNumber_threePlaces (count : Nat) :
    (threePlaces count).toNumber = ofRank false (rankOf count) := by
  have scaled : (threePlaces count).toNumber = Decimal.toNumber ⟨count, 3⟩ := by
    rw [threePlaces]
    split
    · next hundreds =>
      have whole : count = count / 100 * 10 * 10 := by omega
      rw [← Decimal.toNumber_scale, ← Decimal.toNumber_scale, ← whole]
    · split
      · next tens =>
        have whole : count = count / 10 * 10 := by omega
        rw [← Decimal.toNumber_scale, ← whole]
      · rfl
  rw [scaled]
  rfl

section
variable {rank count : Nat}

/-- A number of thousandths is at most half a thousandth away from the magnitude nearest to it, if
it is for any magnitude. Two halves away from an even one stay two halves away from it. -/
theorem HalfEven.reread (rounded : HalfEven (units rank * 1000) one count) :
    HalfEven (units (rankOf count) * 1000) one count := by
  have nearest := nearestRank_nearest (count * one) (by decide : 0 < 1000) rank
  rw [Nat.dist_comm, Nat.dist_comm (count * one)] at nearest
  obtain ⟨near, even⟩ := rounded
  constructor
  · calc 2 * Nat.dist (units (rankOf count) * 1000) (count * one)
        ≤ 2 * Nat.dist (units rank * 1000) (count * one) := Nat.mul_le_mul_left 2 nearest
      _ ≤ one := near
  · intro halfway
    -- then the first magnitude is halfway as well, for it is no nearer
    apply even
    apply Nat.le_antisymm near
    calc one = 2 * Nat.dist (units (rankOf count) * 1000) (count * one) := halfway.symm
      _ ≤ 2 * Nat.dist (units rank * 1000) (count * one) := Nat.mul_le_mul_left 2 nearest

theorem thousandths_reread (rank : Nat) : thousandths (rankOf (thousandths rank)) = thousandths rank :=
  (thousandths_nearest (rankOf (thousandths rank))).unique one_pos (thousandths_nearest rank).reread

/-- The step to infinity is so large that no thousandths of a finite number come near to it. -/
theorem rankOf_finite (finite : rank < finiteCount) : rankOf (thousandths rank) < finiteCount := by
  have last : units (finiteCount - 1) + one ≤ units finiteCount := by decide +kernel
  have below : units rank ≤ units (finiteCount - 1) := units_strictMono.monotone (by omega)
  have start := thousandths_nearest rank
  have again := start.reread.near
  have near := start.near
  -- both are within half a thousandth of the count, and the step to infinity is larger
  by_contra beyond
  have above : units finiteCount ≤ units (rankOf (thousandths rank)) :=
    units_strictMono.monotone (Nat.le_of_not_lt beyond)
  have positive := one_pos
  simp only [Nat.dist] at near again
  generalize units (rankOf (thousandths rank)) = reread at *
  generalize units finiteCount = infinity at *
  generalize units (finiteCount - 1) = greatest at *
  generalize thousandths rank * one = shown at *
  omega

end

variable {options : Options}

/-- The display text of a finite number is read as one expression: a number token, behind a minus
if the number is negative. Its value is a finite number that is displayed by the same text. -/
theorem display_reads_back (room : 12 ≤ options.limits.parsing)
    (depth : 3 ≤ options.limits.evaluating) (tree : ScopeTree) (negative : Bool)
    (rank : Fin finiteCount) :
    ∃ (numeral : String) (again : Fin finiteCount),
      Token.scan (finite negative rank).display.toList = .ok (signTokens negative 1 ++
        [⟨.number (finite false again), numeral, 1⟩, .endOfInput 1]) ∧
      Source.expression options.limits (finite negative rank).display.toList =
        .ok (signedLiteral negative again) ∧
      (Session.evaluateSource options (finite negative rank).display.toList tree).result =
        .ok (.number (finite negative again)) ∧
      (finite negative again).display = (finite negative rank).display := by
  have bounded := rankOf_finite rank.isLt
  have denotes : (threePlaces (thousandths rank)).toNumber =
      finite false ⟨rankOf (thousandths rank), bounded⟩ := by
    rw [toNumber_threePlaces, ofRank, dif_pos bounded]
  have read := expression_signed room negative denotes
  refine ⟨_, ⟨_, bounded⟩, scan_signed negative denotes, read, ?_, ?_⟩
  · exact evaluateSource_signed depth read tree
  · rw [display, display, thousandths_reread]

/-- A third below zero is displayed as `-0.333`, which is another number. -/
theorem third_reads_back :
    let text := "-0.333"
    12 ≤ Limits.standard.parsing ∧ 3 ≤ Limits.standard.evaluating ∧
      (finite true 0x3fd5555555555555).display = text ∧
      ∃ (numeral : String) (again : Fin finiteCount),
        Token.scan text.toList = .ok
          [⟨.minus, "-", 1⟩, ⟨.number (finite false again), numeral, 1⟩, .endOfInput 1] ∧
        Source.expression .standard text.toList =
          .ok (.unary .minus (.literal (.number (finite false again)))) ∧
        (Session.evaluateSource ⟨false, .standard⟩ text.toList .initial).result =
          .ok (.number (finite true again)) ∧
        (finite true again).display = text := by
  have written : (finite true 0x3fd5555555555555).display = "-0.333" := by decide +kernel
  obtain ⟨numeral, again, parts⟩ := @display_reads_back ⟨false, .standard⟩ (by decide) (by decide)
    .initial true 0x3fd5555555555555
  rw [written] at parts
  exact ⟨by decide, by decide, written, numeral, again, parts⟩

end Number
end Lox
