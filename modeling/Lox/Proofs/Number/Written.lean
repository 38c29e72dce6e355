import Lox.Proofs.Number.Shortest
import Lox.Text.Digit

namespace Lox

open Text

theorem digitValue?_digitChar {digit : Nat} (small : digit < 10) :
    digitValue? (digitChar digit) = some digit := by
  have all : ∀ digit < 10, digitValue? (digitChar digit) = some digit := by decide
  exact all digit small

theorem isDigit_digitChar {digit : Nat} (small : digit < 10) :
    isDigit (digitChar digit) = true := by
  rw [isDigit, digitValue?_digitChar small]
  rfl

theorem digits_all {property : Char → Prop} (each : ∀ digit < 10, property (digitChar digit))
    (n : Nat) : ∀ c ∈ digits n, property c := by
  induction n using Nat.strongRecOn with
  | ind n ih =>
    intro c member
    rw [digits] at member
    split at member
    · next small =>
      rcases List.mem_singleton.mp member with rfl
      exact each n small
    · rcases List.mem_append.mp member with earlier | last
      · exact ih (n / 10) (by omega) c earlier
      · rcases List.mem_singleton.mp last with rfl
        exact each (n % 10) (Nat.mod_lt n (by decide))

theorem length_digits_pos (n : Nat) : 0 < (digits n).length := by
  rw [digits]
  split <;> simp

theorem length_digits_le (n places : Nat) :
    (digits n).length ≤ places + 1 ↔ n < 10 ^ (places + 1) := by
  induction places generalizing n with
  | zero =>
    rw [digits]
    have more := length_digits_pos (n / 10)
    split
    · simpa
    · simp only [List.length_append, List.length_singleton]
      omega
  | succ places ih =>
    rw [digits, Nat.pow_succ]
    have one : 1 ≤ 10 ^ (places + 1) := Nat.one_le_pow _ _ (by decide)
    split
    · simp only [List.length_singleton]
      omega
    · rw [List.length_append, List.length_singleton, Nat.add_le_add_iff_right, ih]
      omega

namespace Text

theorem digitsValue_concat (cs : List Char) (c : Char) :
    digitsValue (cs ++ [c]) = digitsValue cs * 10 + (digitValue? c).getD 0 := by
  rw [digitsValue, List.foldl_append]
  rfl

theorem digitsValue_digits (n : Nat) : digitsValue (digits n) = n := by
  induction n using Nat.strongRecOn with
  | ind n ih =>
    rw [digits]
    split
    · next small =>
      rw [← List.nil_append [digitChar n], digitsValue_concat, digitValue?_digitChar small]
      exact Nat.zero_add n
    · rw [digitsValue_concat, ih (n / 10) (by omega),
        digitValue?_digitChar (Nat.mod_lt n (by decide)), Option.getD_some]
      omega

theorem digitsValue_zeros (count : Nat) (cs : List Char) :
    digitsValue (List.replicate count '0' ++ cs) = digitsValue cs := by
  induction count with
  | zero => rfl
  | succ count ih => exact ih

end Text

namespace Decimal

def padded (decimal : Decimal) : List Char :=
  List.replicate (decimal.places + 1 - (digits decimal.coefficient).length) '0' ++
    digits decimal.coefficient

theorem places_lt_padded (decimal : Decimal) : decimal.places < decimal.padded.length := by
  rw [padded, List.length_append, List.length_replicate]
  omega

theorem padded_all {property : Char → Prop} (each : ∀ digit < 10, property (digitChar digit))
    (decimal : Decimal) : ∀ c ∈ decimal.padded, property c := by
  intro c member
  rcases List.mem_append.mp member with zero | digit
  · rw [List.eq_of_mem_replicate zero]
    exact each 0 (by decide)
  · exact digits_all each _ c digit

theorem isDigit_padded (decimal : Decimal) : ∀ c ∈ decimal.padded, isDigit c = true :=
  padded_all (fun _ small => isDigit_digitChar small) decimal

theorem digitsValue_padded (decimal : Decimal) :
    digitsValue decimal.padded = decimal.coefficient := by
  rw [padded, digitsValue_zeros, digitsValue_digits]

theorem toList_text (decimal : Decimal) : decimal.text.toList =
    decimal.padded.take (decimal.padded.length - decimal.places) ++ '.' ::
      if (decimal.padded.drop (decimal.padded.length - decimal.places)).isEmpty then ['0']
      else decimal.padded.drop (decimal.padded.length - decimal.places) :=
  String.toList_ofList

theorem toNumber_scale (coefficient places : Nat) :
    toNumber ⟨coefficient * 10, places + 1⟩ = toNumber ⟨coefficient, places⟩ := by
  have scaled : coefficient * 10 * Number.one = coefficient * Number.one * 10 := by
    rw [Nat.mul_right_comm]
  have shifted : Nat.pow 10 (places + 1) = Nat.pow 10 places * 10 := rfl
  simp only [toNumber, Number.nearest, scaled, shifted,
    Number.nearestRank_scale _ _ (by decide : 0 < 10)]

/-- The text of a decimal has digits on both sides of its point, and all of them together, with as
many places as there are digits after the point, denote the number of the decimal. -/
theorem text_digits (decimal : Decimal) : ∃ whole fraction : List Char,
    decimal.text.toList = whole ++ '.' :: fraction ∧ whole ≠ [] ∧ fraction ≠ [] ∧
    (∀ c ∈ whole ++ fraction, isDigit c = true) ∧
    toNumber ⟨digitsValue (whole ++ fraction), fraction.length⟩ = decimal.toNumber := by
  have room := decimal.places_lt_padded
  have split := List.take_append_drop (decimal.padded.length - decimal.places) decimal.padded
  have long : (decimal.padded.drop (decimal.padded.length - decimal.places)).length =
      decimal.places := by
    rw [List.length_drop]
    omega
  have started : decimal.padded.take (decimal.padded.length - decimal.places) ≠ [] := by
    intro none
    have length := congrArg List.length none
    rw [List.length_take, List.length_nil] at length
    omega
  have written := decimal.toList_text
  generalize decimal.padded.take (decimal.padded.length - decimal.places) = whole at *
  generalize decimal.padded.drop (decimal.padded.length - decimal.places) = fraction at *
  have allDigits := decimal.isDigit_padded
  have value := decimal.digitsValue_padded
  rw [← split] at allDigits value
  cases fraction with
  | nil =>
    refine ⟨whole, ['0'], written, started, List.cons_ne_nil _ _, ?_, ?_⟩
    · intro c member
      rcases List.mem_append.mp member with digit | zero
      · exact allDigits c (List.mem_append_left _ digit)
      · rw [List.mem_singleton.mp zero]
        decide
    · have whole_number : decimal = ⟨decimal.coefficient, 0⟩ :=
        congrArg (Decimal.mk decimal.coefficient) long.symm
      rw [List.append_nil] at value
      rw [digitsValue_concat, value, whole_number]
      exact toNumber_scale decimal.coefficient 0
  | cons first others =>
    refine ⟨whole, first :: others, written, started, List.cons_ne_nil _ _, allDigits, ?_⟩
    rw [value, long]

theorem text_plain (decimal : Decimal) :
    ∀ c ∈ decimal.text.toList, c = '.' ∨ c.isDigit = true := by
  have ascii : ∀ digit < 10, (digitChar digit).isDigit = true := by decide
  have plain : ∀ c ∈ decimal.padded, c.isDigit = true := padded_all ascii decimal
  intro c member
  rw [toList_text] at member
  rcases List.mem_append.mp member with before | behind
  · exact .inr (plain c (List.mem_of_mem_take before))
  · rcases List.mem_cons.mp behind with point | after
    · exact .inl point
    · right
      split at after
      · obtain rfl := List.mem_singleton.mp after
        decide
      · exact plain c (List.mem_of_mem_drop after)

end Decimal
end Lox
