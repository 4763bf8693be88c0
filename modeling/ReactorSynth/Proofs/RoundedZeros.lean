import ReactorSynth.Proofs.NumeralValues
import ReactorSynth.Value

/-!
# Zeros of the floating-point format

A literal counts as zero when the 64-bit floating-point number next to it is zero. The format is
stated here by its finite numbers (`Binary64`), and rounding by what it promises: no finite number
is nearer, and of two that are equally near the one with the even significand is taken
(`Binary64.RoundsTo`).

* `Binary64.least_le_abs`: no number but zero is below the least positive one, `2 ^ -1074`.
* `Binary64.roundsTo_value_eq_zero_iff`: a number rounds to zero iff it is at most half of that; at
  the half it is the even significand of zero that decides.
* **`Value.isZero_literal_iff`**: the zero test of literals in ASCII digits decides this for the
  exact number that the literal denotes, however long its digits and its exponent are.
-/

namespace ReactorSynth

open Text

/-! ## The format -/

/-- A finite 64-bit floating-point number: a significand of at most 53 bits, all 53 of them in use
unless the exponent is the least one. -/
structure Binary64 where
  significand : ℤ
  exponent : ℤ
  significand_lt : |significand| < 2 ^ 53
  exponent_ge : -1074 ≤ exponent
  exponent_le : exponent ≤ 971
  normal : 2 ^ 52 ≤ |significand| ∨ exponent = -1074

namespace Binary64

/-- The number that stands for zero. -/
def zero : Binary64 := ⟨0, -1074, by decide, by decide, by decide, Or.inr rfl⟩

/-- The least positive number. -/
def least : Binary64 := ⟨1, -1074, by decide, by decide, by decide, Or.inr rfl⟩

/-- The number with the opposite sign. -/
def neg (x : Binary64) : Binary64 where
  significand := -x.significand
  exponent := x.exponent
  significand_lt := (abs_neg x.significand).trans_lt x.significand_lt
  exponent_ge := x.exponent_ge
  exponent_le := x.exponent_le
  normal := (abs_neg x.significand).symm ▸ x.normal

def value (x : Binary64) : ℚ := x.significand * 2 ^ x.exponent

/-- Rounding to nearest, ties to even: the number is in the range that does not overflow, no finite
number is nearer to it, and the significand is even if another one is equally near. -/
structure RoundsTo (v : ℚ) (x : Binary64) : Prop where
  in_range : |v| < 2 ^ 1024 - 2 ^ 970
  nearest : ∀ y : Binary64, |v - x.value| ≤ |v - y.value|
  ties_even : ∀ y : Binary64, y.value ≠ x.value → |v - y.value| = |v - x.value| →
    Even x.significand

/-! ## Rounding to zero -/

variable {v : ℚ} {x : Binary64}

@[simp] theorem value_zero : zero.value = 0 := by
  simp [value, zero]

@[simp] theorem value_least : least.value = 2 ^ (-1074 : ℤ) := by
  simp [value, least]

@[simp] theorem value_neg (x : Binary64) : x.neg.value = -x.value := by
  simp [value, neg]

theorem abs_value (x : Binary64) : |x.value| = (|x.significand| : ℤ) * (2 : ℚ) ^ x.exponent := by
  rw [value, abs_mul, abs_of_pos (by positivity : (0 : ℚ) < 2 ^ x.exponent), Int.cast_abs]

theorem least_eq_two_mul : (2 : ℚ) ^ (-1074 : ℤ) = 2 * 2 ^ (-1075 : ℤ) := by
  rw [← zpow_one_add₀ (by norm_num)]
  rfl

theorem one_lt_range : (1 : ℚ) < 2 ^ 1024 - 2 ^ 970 := by
  have hone : (1 : ℚ) < 2 ^ 970 := one_lt_pow₀ (by norm_num) (by decide)
  refine lt_sub_iff_add_lt.mpr ?_
  calc (1 : ℚ) + 2 ^ 970 < 2 ^ 970 + 2 ^ 970 := by gcongr
    _ = 2 ^ 970 * 2 := (mul_two _).symm
    _ = 2 ^ (970 + 1) := (pow_succ 2 970).symm
    _ ≤ 2 ^ 1024 := pow_le_pow_right₀ (by norm_num) (by decide)

/-- No number but zero is below the least positive one, which has an odd significand. -/
theorem least_le_abs (hx : x.value ≠ 0) :
    (2 : ℚ) ^ (-1074 : ℤ) ≤ |x.value| ∧
      (|x.value| = 2 ^ (-1074 : ℤ) → |x.significand| = 1) := by
  have hsignificand : 1 ≤ |x.significand| := by
    refine Int.one_le_abs fun h => hx ?_
    rw [value, h, Int.cast_zero, zero_mul]
  have hpow : (2 : ℚ) ^ (-1074 : ℤ) ≤ 2 ^ x.exponent :=
    zpow_le_zpow_right₀ (by norm_num) x.exponent_ge
  have hpos : (0 : ℚ) < 2 ^ (-1074 : ℤ) := by positivity
  rw [abs_value]
  refine ⟨?_, fun h => le_antisymm ?_ hsignificand⟩
  · calc (2 : ℚ) ^ (-1074 : ℤ) ≤ 2 ^ x.exponent := hpow
      _ = (1 : ℤ) * 2 ^ x.exponent := by rw [Int.cast_one, one_mul]
      _ ≤ |x.significand| * 2 ^ x.exponent :=
        mul_le_mul_of_nonneg_right (Int.cast_le.mpr hsignificand) (by positivity)
  · have hle : ((|x.significand| : ℤ) : ℚ) * 2 ^ (-1074 : ℤ) ≤ 1 * 2 ^ (-1074 : ℤ) :=
      calc ((|x.significand| : ℤ) : ℚ) * 2 ^ (-1074 : ℤ)
          ≤ (|x.significand| : ℤ) * 2 ^ x.exponent :=
            mul_le_mul_of_nonneg_left hpow (Int.cast_nonneg (abs_nonneg _))
        _ = 1 * 2 ^ (-1074 : ℤ) := h.trans (one_mul _).symm
    exact_mod_cast le_of_mul_le_mul_right hle hpos

/-- What rounds to zero is at most half of the least positive number, since that number and its
opposite are no nearer. -/
theorem RoundsTo.abs_le (h : RoundsTo v x) (hx : x.value = 0) : |v| ≤ 2 ^ (-1075 : ℤ) := by
  have habove := h.nearest least
  have hbelow := h.nearest least.neg
  rw [value_neg] at hbelow
  rw [hx, sub_zero, value_least, least_eq_two_mul] at habove hbelow
  have hpos : (0 : ℚ) < 2 ^ (-1075 : ℤ) := by positivity
  generalize (2 : ℚ) ^ (-1075 : ℤ) = half at habove hbelow hpos ⊢
  rcases abs_cases v with ⟨hv, hsign⟩ | ⟨hv, hsign⟩
  · rcases abs_cases (v - 2 * half) with ⟨hd, _⟩ | ⟨hd, _⟩ <;> linarith
  · rcases abs_cases (v - -(2 * half)) with ⟨hd, _⟩ | ⟨hd, _⟩ <;> linarith

/-- A number rounds to zero iff it is at most half of the least positive one. -/
theorem roundsTo_value_eq_zero_iff (h : RoundsTo v x) :
    x.value = 0 ↔ |v| ≤ 2 ^ (-1075 : ℤ) := by
  refine ⟨h.abs_le, fun hv => ?_⟩
  by_contra hx
  obtain ⟨hle, hodd⟩ := least_le_abs hx
  have hnear := h.nearest zero
  rw [value_zero, sub_zero] at hnear
  rw [least_eq_two_mul] at hle hodd
  have hsub := abs_sub_abs_le_abs_sub x.value v
  rw [abs_sub_comm] at hsub
  -- zero is equally near, so the significand is even, but it is that of the least number
  have heven := h.ties_even zero (by rwa [value_zero, ne_comm]) (by
    rw [value_zero, sub_zero]
    linarith)
  rw [← even_abs, hodd (by linarith)] at heven
  exact absurd heven (by decide)

theorem roundsTo_zero_iff : RoundsTo v zero ↔ |v| ≤ 2 ^ (-1075 : ℤ) := by
  refine ⟨fun h => h.abs_le value_zero, fun hv => ⟨?_, fun y => ?_, fun _ _ _ => Even.zero⟩⟩
  · calc |v| ≤ 2 ^ (-1075 : ℤ) := hv
      _ ≤ 2 ^ (0 : ℤ) := zpow_le_zpow_right₀ (by norm_num) (by decide)
      _ = 1 := zpow_zero 2
      _ < 2 ^ 1024 - 2 ^ 970 := one_lt_range
  · rw [value_zero, sub_zero]
    by_cases hy : y.value = 0
    · rw [hy, sub_zero]
    · have hle := (least_le_abs hy).1
      have hsub := abs_sub_abs_le_abs_sub y.value v
      rw [abs_sub_comm] at hsub
      rw [least_eq_two_mul] at hle
      linarith

end Binary64

/-! ## Literals -/

/-- **The zero test of literals.** A literal in ASCII digits denotes one exact number, and counts as
zero iff that number is at most `2 ^ -1075`, which is when it rounds to the zero of the
floating-point format and to no other number of it. -/
theorem Value.isZero_literal_iff (text : String) (hnumeral : isNumeral text = true)
    (hascii : AsciiDigits text.toList) :
    ∃ v, Denotes (trimList text.toList) v ∧ (∀ w, Denotes (trimList text.toList) w → w = v) ∧
      ((literal text).isZero = true ↔ |v| ≤ 2 ^ (-1075 : ℤ)) ∧
      ((literal text).isZero = true ↔ Binary64.RoundsTo v Binary64.zero) ∧
      ∀ x, Binary64.RoundsTo v x → ((literal text).isZero = true ↔ x.value = 0) := by
  obtain ⟨n, hread⟩ := Option.isSome_iff_exists.mp hnumeral
  obtain ⟨hn, hchars⟩ := Numeral.ofText?_eq_some_iff.mp hread
  have hover : n.IsOver isAsciiDigit :=
    hn.ascii (hchars ▸ (asciiDigits_trimList text.toList).mpr hascii)
  have hdenotes : Denotes (trimList text.toList) n.value := ⟨n, hover, hchars, rfl⟩
  have hzero : (literal text).isZero = true ↔ |n.value| ≤ 2 ^ (-1075 : ℤ) := by
    rw [isZero, isZeroNumeral, hread]
    exact Numeral.isZero_iff hover
  exact ⟨n.value, hdenotes, fun w hw => denotes_unique hw hdenotes, hzero,
    hzero.trans Binary64.roundsTo_zero_iff.symm,
    fun x hx => hzero.trans (Binary64.roundsTo_value_eq_zero_iff hx).symm⟩

/-- A literal a little below half of the least positive number counts as zero, and the next decimal
of as many digits does not. -/
theorem Value.isZero_literal_iff_half :
    (isNumeral "-2.4703282292062327e-324" = true ∧ AsciiDigits "-2.4703282292062327e-324".toList ∧
      ∃ v, Denotes "-2.4703282292062327e-324".toList v ∧ |v| ≤ 2 ^ (-1075 : ℤ) ∧
        Binary64.RoundsTo v Binary64.zero) ∧
    isNumeral "2.4703282292062328e-324" = true ∧ AsciiDigits "2.4703282292062328e-324".toList ∧
      ∃ v, Denotes "2.4703282292062328e-324".toList v ∧ ¬ |v| ≤ 2 ^ (-1075 : ℤ) ∧
        ∀ x, Binary64.RoundsTo v x → x.value ≠ 0 := by
  have hbelow : isNumeral "-2.4703282292062327e-324" = true := by decide +kernel
  have habove : isNumeral "2.4703282292062328e-324" = true := by decide +kernel
  have hbelowDigits : AsciiDigits "-2.4703282292062327e-324".toList := by decide +kernel
  have haboveDigits : AsciiDigits "2.4703282292062328e-324".toList := by decide +kernel
  have hzero : (literal "-2.4703282292062327e-324").isZero = true := by decide +kernel
  have hnonzero : (literal "2.4703282292062328e-324").isZero ≠ true := by decide +kernel
  obtain ⟨v, hv, -, hle, hround, -⟩ := isZero_literal_iff _ hbelow hbelowDigits
  obtain ⟨w, hw, -, hle', -, hround'⟩ := isZero_literal_iff _ habove haboveDigits
  exact ⟨⟨hbelow, hbelowDigits, v, hv, hle.mp hzero, hround.mp hzero⟩,
    habove, haboveDigits, w, hw, mt hle'.mpr hnonzero, fun x hx => mt (hround' x hx).mpr hnonzero⟩

end ReactorSynth
