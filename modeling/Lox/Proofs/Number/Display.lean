import Mathlib.Algebra.Order.Field.Basic
import Mathlib.Algebra.Order.Field.Rat
import Mathlib.Tactic.FieldSimp
import Mathlib.Tactic.Linarith
import Lox.Proofs.Number.Nearest
import Lox.Proofs.Number.Written

namespace Lox

theorem digitChar_eq_zero {digit : Nat} (small : digit < 10) (zero : digitChar digit = '0') :
    digit = 0 := by
  have all : ∀ digit < 10, digitChar digit = '0' → digit = 0 := by decide
  exact all digit small zero

theorem digits_unpadded {n : Nat} (front : (digits n).head? = some '0') : digits n = ['0'] := by
  induction n using Nat.strongRecOn with
  | ind n ih =>
    rw [digits] at front ⊢
    split at front
    · next small =>
      rw [if_pos small, Option.some.inj front]
    · next large =>
      have started := List.ne_nil_of_length_pos (length_digits_pos (n / 10))
      rw [List.head?_append_of_ne_nil _ started] at front
      have value := Text.digitsValue_digits (n / 10)
      rw [ih (n / 10) (by omega) front] at value
      have zero : n / 10 = 0 := value.symm
      omega

namespace Decimal

theorem padded_succ (coefficient places : Nat) : padded ⟨coefficient, places + 1⟩ =
    padded ⟨coefficient / 10, places⟩ ++ [digitChar (coefficient % 10)] := by
  rw [padded, padded]
  dsimp only
  rw [digits.eq_def coefficient]
  split
  · next small =>
    have none : coefficient / 10 = 0 := by omega
    have last : coefficient % 10 = coefficient := by omega
    have zero : digits 0 = ['0'] := by
      rw [digits]
      rfl
    rw [none, last, zero, List.length_singleton, List.length_singleton, Nat.add_sub_cancel,
      Nat.add_sub_cancel, List.replicate_succ']
  · rw [List.length_append, List.length_singleton, Nat.add_sub_add_right, List.append_assoc]

theorem take_padded (coefficient places : Nat) :
    (padded ⟨coefficient, places⟩).take ((padded ⟨coefficient, places⟩).length - places) =
      digits (coefficient / 10 ^ places) := by
  induction places generalizing coefficient with
  | zero =>
    have bare : padded ⟨coefficient, 0⟩ = digits coefficient := by
      have more := length_digits_pos coefficient
      have none : 0 + 1 - (digits coefficient).length = 0 := by omega
      rw [padded, none, List.replicate_zero, List.nil_append]
    rw [bare, Nat.sub_zero, List.take_length, Nat.pow_zero, Nat.div_one]
  | succ places ih =>
    have within : (padded ⟨coefficient / 10, places⟩).length - places ≤
        (padded ⟨coefficient / 10, places⟩).length := Nat.sub_le _ _
    rw [padded_succ, List.length_append, List.length_singleton, Nat.add_sub_add_right,
      List.take_append_of_le_length within, ih, Nat.div_div_eq_div_mul, Nat.pow_succ']

def fraction (decimal : Decimal) : List Char :=
  decimal.padded.drop (decimal.padded.length - decimal.places)

theorem length_fraction (decimal : Decimal) : decimal.fraction.length = decimal.places := by
  have room := decimal.places_lt_padded
  rw [fraction, List.length_drop]
  omega

theorem getLast?_fraction {decimal : Decimal} (placed : 0 < decimal.places) :
    decimal.fraction.getLast? = some (digitChar (decimal.coefficient % 10)) := by
  obtain ⟨coefficient, places⟩ := decimal
  obtain ⟨places, rfl⟩ := Nat.exists_eq_succ_of_ne_zero (Nat.ne_of_gt placed)
  rw [fraction, Nat.succ_eq_add_one, padded_succ, List.length_append, List.length_singleton,
    Nat.add_sub_add_right, List.drop_append_of_le_length (Nat.sub_le _ _), List.getLast?_concat]

theorem padded_split (decimal : Decimal) :
    digits (decimal.coefficient / 10 ^ decimal.places) ++ decimal.fraction = decimal.padded := by
  rw [← take_padded, fraction]
  exact List.take_append_drop _ _

theorem isDigit_parts (decimal : Decimal) :
    ∀ c ∈ digits (decimal.coefficient / 10 ^ decimal.places) ++ decimal.fraction,
      c.isDigit = true := by
  have ascii : ∀ digit < 10, (digitChar digit).isDigit = true := by decide
  rw [padded_split]
  exact padded_all ascii decimal

theorem toList_parts {decimal : Decimal} (placed : 0 < decimal.places) : decimal.text.toList =
    digits (decimal.coefficient / 10 ^ decimal.places) ++ '.' :: decimal.fraction := by
  have more : decimal.fraction.isEmpty = false := by
    rw [List.isEmpty_eq_false_iff, ← List.length_pos_iff, length_fraction]
    exact placed
  rw [toList_text, take_padded, ← fraction, if_neg (by rw [more]; exact Bool.false_ne_true)]

end Decimal

/-- Digits before and after a point in normal form: no zero in front of other digits, and one to
three places, the last of them no zero unless it is the only one. -/
structure Tidy (whole fraction : List Char) : Prop where
  digits : ∀ c ∈ whole ++ fraction, c.isDigit = true
  started : whole ≠ []
  unpadded : whole.head? = some '0' → whole = ['0']
  places : 1 ≤ fraction.length ∧ fraction.length ≤ 3
  trimmed : fraction.getLast? = some '0' → fraction.length = 1

structure Decimal.Trimmed (decimal : Decimal) : Prop where
  placed : 0 < decimal.places
  few : decimal.places ≤ 3
  last : decimal.coefficient % 10 = 0 → decimal.places = 1

theorem Decimal.Trimmed.tidy {decimal : Decimal} (trimmed : decimal.Trimmed) :
    Tidy (digits (decimal.coefficient / 10 ^ decimal.places)) decimal.fraction := by
  have started := List.ne_nil_of_length_pos
    (length_digits_pos (decimal.coefficient / 10 ^ decimal.places))
  have long := decimal.length_fraction
  refine ⟨decimal.isDigit_parts, started, digits_unpadded, ?_, ?_⟩
  · rw [long]
    exact ⟨trimmed.placed, trimmed.few⟩
  · intro zero
    rw [getLast?_fraction trimmed.placed] at zero
    have small := Nat.mod_lt decimal.coefficient (by decide : 10 > 0)
    rw [long]
    exact trimmed.last (digitChar_eq_zero small (Option.some.inj zero))

def magnitudeOf (numeral : List Char) : ℚ :=
  let whole := numeral.takeWhile (· != '.')
  let fraction := (numeral.dropWhile (· != '.')).drop 1
  Text.digitsValue (whole ++ fraction) / 10 ^ fraction.length

def shown : List Char → ℚ
  | '-' :: numeral => -magnitudeOf numeral
  | numeral => magnitudeOf numeral

section
variable {whole fraction : List Char}

theorem magnitudeOf_parts (digits : ∀ c ∈ whole, c.isDigit = true) :
    magnitudeOf (whole ++ '.' :: fraction) =
      Text.digitsValue (whole ++ fraction) / 10 ^ fraction.length := by
  have before : ∀ c ∈ whole, (c != '.') = true := by
    intro c member
    have digit := digits c member
    simp only [bne_iff_ne]
    rintro rfl
    exact absurd digit (by decide)
  simp [magnitudeOf, List.takeWhile_append_of_pos before, List.dropWhile_append_of_pos before]

theorem Tidy.shown (tidy : Tidy whole fraction) (negative : Bool) :
    shown ((if negative then ['-'] else []) ++ (whole ++ '.' :: fraction)) =
      (if negative then -1 else 1) *
        (Text.digitsValue (whole ++ fraction) / 10 ^ fraction.length) := by
  have digits (c : Char) (member : c ∈ whole) := tidy.digits c (List.mem_append_left _ member)
  have magnitude := @magnitudeOf_parts whole fraction digits
  cases negative with
  | true => exact (congrArg (-·) magnitude).trans (neg_one_mul _).symm
  | false =>
    obtain ⟨first, others, rfl⟩ := List.exists_cons_of_ne_nil tidy.started
    have unsigned : first ≠ '-' := by
      rintro rfl
      exact absurd (digits '-' List.mem_cons_self) (by decide)
    rw [← magnitude, if_neg Bool.false_ne_true, if_neg Bool.false_ne_true, one_mul]
    exact shown.eq_2 _ fun _ same => unsigned (List.cons.inj same).1

end

/-- A number of thousandths is nearest to a value, and of two that are nearest it is the even one. -/
structure RoundsTo (value : ℚ) (count : ℤ) : Prop where
  nearest : ∀ other : ℤ, |value - count / 1000| ≤ |value - other / 1000|
  tiesToEven : ∀ other : ℤ, other ≠ count →
    |value - other / 1000| = |value - count / 1000| → Even count

theorem RoundsTo.neg {value : ℚ} {count : ℤ} (rounds : RoundsTo value count) :
    RoundsTo (-value) (-count) := by
  have mirrored (other : ℤ) : |-value - other / 1000| = |value - (-other : ℤ) / 1000| := by
    rw [← abs_neg]
    congr 1
    push_cast
    ring
  constructor
  · intro other
    rw [mirrored, mirrored, neg_neg]
    exact rounds.nearest (-other)
  · intro other apart
    rw [mirrored, mirrored, neg_neg]
    intro tie
    exact (rounds.tiesToEven (-other) (by omega) tie).neg

section
variable {amount unit count : Nat}

theorem cast_dist (n m : Nat) : (Nat.dist n m : ℚ) = |(n : ℚ) - m| := by
  rcases Nat.le_total n m with below | above
  · have ordered : (n : ℚ) ≤ m := Nat.cast_le.mpr below
    rw [Nat.dist_eq_sub_of_le below, Nat.cast_sub below, abs_sub_comm, abs_of_nonneg]
    linarith
  · have ordered : (m : ℚ) ≤ n := Nat.cast_le.mpr above
    rw [Nat.dist_eq_sub_of_le_right above, Nat.cast_sub above, abs_of_nonneg]
    linarith

/-- How far a number of thousandths is from a quotient, measured in the steps of both. -/
theorem thousandths_error (positive : (0 : ℚ) < unit) : |(amount : ℚ) / unit - count / 1000| =
    Nat.dist (amount * 1000) (count * unit) / (1000 * unit) := by
  calc |(amount : ℚ) / unit - count / 1000|
      = |((amount * 1000 : ℕ) - (count * unit : ℕ) : ℚ) / (1000 * unit)| := by
        congr 1
        push_cast
        field_simp
    _ = |((amount * 1000 : ℕ) - (count * unit : ℕ) : ℚ)| / (1000 * unit) := by
        rw [abs_div, abs_of_pos (by positivity : (0 : ℚ) < 1000 * unit)]
    _ = Nat.dist (amount * 1000) (count * unit) / (1000 * unit) := by rw [cast_dist]

theorem thousandths_apart (value : ℚ) {other : ℤ} (differ : other ≠ count) :
    1 / 1000 ≤ |value - other / 1000| + |value - count / 1000| := by
  have whole : (1 : ℚ) ≤ |(count : ℚ) - other| := by
    exact_mod_cast Int.one_le_abs (sub_ne_zero.mpr differ.symm)
  calc (1 : ℚ) / 1000 ≤ |(count : ℚ) - other| / 1000 := by linarith
    _ = |((count : ℚ) - other) / 1000| := by
        rw [abs_div, abs_of_pos (by norm_num : (0 : ℚ) < 1000)]
    _ = |(value - other / 1000) - (value - count / 1000)| := by
        congr 1
        ring
    _ ≤ |value - other / 1000| + |value - count / 1000| := abs_sub _ _

theorem Number.HalfEven.rounds (nearest : HalfEven (amount * 1000) unit count)
    (positive : 0 < unit) : RoundsTo ((amount : ℚ) / unit) (count : ℤ) := by
  have positive : (0 : ℚ) < unit := Nat.cast_pos.mpr positive
  have error := @thousandths_error amount unit count positive
  obtain ⟨near, even⟩ := nearest
  have within : |(amount : ℚ) / unit - count / 1000| ≤ 1 / 2000 := by
    have near : (2 * Nat.dist (amount * 1000) (count * unit) : ℚ) ≤ unit := by exact_mod_cast near
    rw [error, div_le_div_iff₀ (by positivity) (by norm_num)]
    linarith
  constructor
  · intro other
    rw [Int.cast_natCast]
    rcases eq_or_ne other count with rfl | differ
    · exact le_refl _
    · linarith [thousandths_apart ((amount : ℚ) / unit) differ]
  · intro other differ tie
    rw [Int.cast_natCast] at tie
    have halfway : |(amount : ℚ) / unit - count / 1000| = 1 / 2000 := by
      linarith [thousandths_apart ((amount : ℚ) / unit) differ]
    rw [error, div_eq_div_iff (by positivity) (by norm_num)] at halfway
    have twice : (2 * Nat.dist (amount * 1000) (count * unit) : ℚ) = unit := by linarith
    have even := even (by exact_mod_cast twice)
    exact (Int.even_coe_nat count).mpr (Nat.even_iff.mpr even)

end

namespace Number

theorem one_pos : 0 < one := by decide +kernel

def value (negative : Bool) (rank : Nat) : ℚ := signedUnits negative rank / one

def signedThousandths (negative : Bool) (rank : Nat) : ℤ :=
  if negative then -(thousandths rank : ℤ) else thousandths rank

theorem thousandths_nearest (rank : Nat) : HalfEven (units rank * 1000) one (thousandths rank) :=
  halfEven_nearest (units rank * 1000) one_pos

theorem thousandths_mono {rank above : Nat} (ordered : rank ≤ above) :
    thousandths rank ≤ thousandths above :=
  (thousandths_nearest rank).mono one_pos (thousandths_nearest above)
    (Nat.mul_le_mul_right 1000 (units_strictMono.monotone ordered))

theorem signedThousandths_rounds (negative : Bool) (rank : Nat) :
    RoundsTo (value negative rank) (signedThousandths negative rank) := by
  have rounds := (thousandths_nearest rank).rounds one_pos
  cases negative with
  | false => exact rounds
  | true =>
    have mirrored : value true rank = -((units rank : ℚ) / one) := by
      rw [value, signedUnits, if_pos rfl]
      push_cast
      ring
    rw [mirrored]
    exact rounds.neg

theorem signedThousandths_mono {negative other : Bool} {rank above : Fin finiteCount}
    (ordered : (finite negative rank).atMost (finite other above) = true) :
    signedThousandths negative rank ≤ signedThousandths other above := by
  have places := of_decide_eq_true ordered
  have up := @thousandths_mono rank above
  have down := @thousandths_mono above rank
  have none : thousandths 0 = 0 := by decide +kernel
  have least := @thousandths_mono rank 0
  have least' := @thousandths_mono above 0
  cases negative <;> cases other <;>
    simp only [signedThousandths, Bool.false_eq_true, if_false, if_true] at places ⊢ <;> omega

theorem threePlaces_trimmed (count : Nat) : (threePlaces count).Trimmed := by
  rw [threePlaces]
  split
  · constructor <;> dsimp only <;> omega
  · split
    · constructor <;> dsimp only <;> omega
    · constructor <;> dsimp only <;> omega

theorem threePlaces_value (count : Nat) :
    ((threePlaces count).coefficient : ℚ) / 10 ^ (threePlaces count).places = count / 1000 := by
  rw [threePlaces]
  split
  · have whole : count = count / 100 * 100 := by omega
    rw [whole, Nat.mul_div_cancel _ (by decide)]
    push_cast
    ring
  · split
    · have whole : count = count / 10 * 10 := by omega
      rw [whole, Nat.mul_div_cancel _ (by decide)]
      push_cast
      ring
    · norm_num

theorem display_parts (negative : Bool) (rank : Fin finiteCount) :
    ∃ whole fraction : List Char,
      (finite negative rank).display.toList =
        (if negative then ['-'] else []) ++ (whole ++ '.' :: fraction) ∧
      Tidy whole fraction ∧
      shown (finite negative rank).display.toList = signedThousandths negative rank / 1000 := by
  have trimmed := threePlaces_trimmed (thousandths rank)
  have sign : (signText negative).toList = if negative then ['-'] else [] := by
    cases negative <;> rfl
  have written : (finite negative rank).display.toList =
      (if negative then ['-'] else []) ++ (threePlaces (thousandths rank)).text.toList := by
    rw [display, String.toList_append, sign]
  rw [Decimal.toList_parts trimmed.placed] at written
  refine ⟨_, _, written, trimmed.tidy, ?_⟩
  rw [written, trimmed.tidy.shown, Decimal.padded_split, Decimal.digitsValue_padded,
    Decimal.length_fraction, threePlaces_value, signedThousandths]
  cases negative with
  | false => rw [if_neg Bool.false_ne_true, if_neg Bool.false_ne_true, one_mul, Int.cast_natCast]
  | true => rw [if_pos rfl, if_pos rfl, Int.cast_neg, Int.cast_natCast, neg_one_mul, neg_div]

/-- A finite number is displayed as a minus if its sign is set, a whole part without superfluous
zeros, a point and one to three places without superfluous zeros. What this text denotes is the
multiple of a thousandth nearest to the number, of two such the even one, and a number that is at
most another one is displayed as at most the other. -/
theorem display_rounded (negative : Bool) (rank : Fin finiteCount) :
    (∃ whole fraction : List Char, (finite negative rank).display.toList =
      (if negative then ['-'] else []) ++ (whole ++ '.' :: fraction) ∧ Tidy whole fraction) ∧
    (∃ count : ℤ, shown (finite negative rank).display.toList = count / 1000 ∧
      RoundsTo (value negative rank) count) ∧
    ∀ (other : Bool) (above : Fin finiteCount),
      (finite negative rank).atMost (finite other above) = true →
        shown (finite negative rank).display.toList ≤ shown (finite other above).display.toList := by
  obtain ⟨whole, fraction, written, tidy, value⟩ := display_parts negative rank
  refine ⟨⟨whole, fraction, written, tidy⟩, ?_, ?_⟩
  · exact ⟨_, value, signedThousandths_rounds negative rank⟩
  · intro other above ordered
    obtain ⟨-, -, -, -, larger⟩ := display_parts other above
    have counts := Int.cast_le (R := ℚ).mpr (signedThousandths_mono ordered)
    rw [value, larger]
    linarith

/-- A sixteenth is half a thousandth away from both 0.062 and 0.063. -/
example : (finite false 0x3fb0000000000000).display = "0.062" := by decide +kernel

end Number
end Lox
