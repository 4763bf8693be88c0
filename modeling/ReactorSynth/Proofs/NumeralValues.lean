import Mathlib.Algebra.Order.Field.Power
import Mathlib.Algebra.Order.Ring.Rat
import Mathlib.Tactic.FieldSimp
import Mathlib.Tactic.Linarith
import Mathlib.Tactic.Positivity
import Mathlib.Tactic.Ring
import ReactorSynth.Proofs.NumeralTexts

/-!
# Values of numerals

A numeral in ASCII digits denotes a rational number (`Numeral.value`): its digits with the point
where it stands, times ten to its exponent. Texts denote what the numeral that they write does
(`Denotes`).

* `denotes_unique`: a text denotes one number at most.
* `Numeral.abs_value`: up to its sign the number is the mantissa times ten to the scale.
* `Numeral.underflows_iff`: the test on the position of the first digit, with its comparison of
  whole numbers in one decade, decides whether a decimal is at most half of the least positive
  floating-point number.
-/

namespace ReactorSynth

open Text

/-! ## Digits -/

namespace Text

theorem decimalValue_append (a b : List Char) :
    decimalValue (a ++ b) = 10 ^ b.length * decimalValue a + decimalValue b := by
  rw [decimalValue, Nat.ofDigitChars_append, Nat.ofDigitChars_eq_ofDigitChars_zero]
  rfl

theorem decimalValue_cons (c : Char) (cs : List Char) :
    decimalValue (c :: cs) = 10 ^ cs.length * (c.toNat - 48) + decimalValue cs := by
  have hdigit : decimalValue [c] = c.toNat - 48 := Nat.zero_add _
  rw [← hdigit]
  exact decimalValue_append [c] cs

theorem code_of_isAsciiDigit {c : Char} (h : isAsciiDigit c = true) :
    48 ≤ c.toNat ∧ c.toNat ≤ 57 := by
  simp only [isAsciiDigit, Bool.and_eq_true, decide_eq_true_eq, Char.le_def,
    UInt32.le_iff_toNat_le] at h
  exact h

theorem decimalValue_lt {cs : List Char} (h : ∀ c ∈ cs, isAsciiDigit c = true) :
    decimalValue cs < 10 ^ cs.length := by
  induction cs with
  | nil => decide
  | cons c cs ih =>
    rw [List.forall_mem_cons] at h
    have hc := code_of_isAsciiDigit h.1
    have hrest := ih h.2
    rw [decimalValue_cons, List.length_cons, Nat.pow_succ]
    have : 10 ^ cs.length * (c.toNat - 48) ≤ 10 ^ cs.length * 9 := Nat.mul_le_mul_left _ (by omega)
    omega

theorem decimalValue_dropWhile_zeros (cs : List Char) :
    decimalValue (cs.dropWhile (· == '0')) = decimalValue cs := by
  induction cs with
  | nil => rfl
  | cons c cs ih =>
    by_cases hc : c = '0'
    · rw [List.dropWhile_cons, if_pos (beq_iff_eq.mpr hc), ih, decimalValue_cons, hc]
      simp
    · rw [List.dropWhile_cons, if_neg (by simpa using hc)]

/-- The decimal digits in a text are ASCII digits. -/
def AsciiDigits (cs : List Char) : Prop := ∀ c ∈ cs, isDecimalDigit c = true → isAsciiDigit c = true

instance (cs : List Char) : Decidable (AsciiDigits cs) :=
  List.decidableBAll (fun c => isDecimalDigit c = true → isAsciiDigit c = true) cs

/-- White space has no digits, so trimming takes none away. -/
theorem asciiDigits_trimList (cs : List Char) : AsciiDigits (trimList cs) ↔ AsciiDigits cs := by
  refine ⟨fun h c hc hdigit => ?_, fun h c hc => h c (mem_of_mem_trimList hc)⟩
  obtain ⟨before, after, hcs, hbefore, hafter⟩ := exists_eq_append_trimList cs
  have hblank := not_isBlank_of_isDecimalDigit hdigit
  rw [hcs] at hc
  rcases List.mem_append.mp hc with hc | hc
  · rcases List.mem_append.mp hc with hc | hc
    · exact absurd (List.all_eq_true.mp hbefore c hc) (by simp [hblank])
    · exact h c hc hdigit
  · exact absurd (List.all_eq_true.mp hafter c hc) (by simp [hblank])

/-- Digits with no zero in front write a number of as many digits. -/
theorem le_decimalValue {c : Char} {cs : List Char} (hc : isAsciiDigit c = true) (hne : c ≠ '0') :
    10 ^ cs.length ≤ decimalValue (c :: cs) := by
  have hcode := code_of_isAsciiDigit hc
  have hpos : c.toNat ≠ 48 := fun h => hne (by rw [← Char.ofNat_toNat c, h])
  have : 10 ^ cs.length * 1 ≤ 10 ^ cs.length * (c.toNat - 48) := Nat.mul_le_mul_left _ (by omega)
  rw [decimalValue_cons]
  omega

end Text

/-! ## Values -/

/-- The factor that an optional sign stands for. -/
def Sign.factor : Option Sign → ℚ
  | some .minus => -1
  | _ => 1

theorem Sign.abs_factor (s : Option Sign) : |factor s| = 1 := by
  rcases s with - | - | - <;> simp [factor]

namespace Numeral

/-- The number that a numeral in ASCII digits denotes. -/
def value (n : Numeral) : ℚ :=
  Sign.factor n.sign *
    (decimalValue n.whole +
      decimalValue (n.fraction.getD []) / 10 ^ (n.fraction.getD []).length) *
    10 ^ (n.exponent.map Exponent.value).getD 0

theorem value_eq (n : Numeral) :
    n.value = Sign.factor n.sign * (n.mantissa * (10 : ℚ) ^ n.scale) := by
  have hscale : (10 : ℚ) ^ n.scale = 10 ^ (n.exponent.map Exponent.value).getD 0 /
      10 ^ (n.fraction.getD []).length := by
    rw [scale, zpow_sub₀ (by norm_num), zpow_natCast]
  rw [hscale, value, mantissa, significand, decimalValue_append]
  push_cast
  field_simp

theorem abs_value (n : Numeral) : |n.value| = n.mantissa * (10 : ℚ) ^ n.scale := by
  rw [value_eq, abs_mul, Sign.abs_factor, one_mul, abs_of_nonneg (by positivity)]

end Numeral

/-- A text denotes the number of the numeral in ASCII digits that it writes. -/
def Denotes (cs : List Char) (v : ℚ) : Prop :=
  ∃ n : Numeral, n.IsOver isAsciiDigit ∧ n.chars = cs ∧ n.value = v

namespace Numeral

variable {n n' : Numeral}

theorem IsOver.decimal (h : n.IsOver isAsciiDigit) : n.IsOver isDecimalDigit where
  ne_nil := h.ne_nil
  significand c hc := isDecimalDigit_of_isAsciiDigit (h.significand c hc)
  exponent e he :=
    { letter := (h.exponent e he).letter
      ne_nil := (h.exponent e he).ne_nil
      digits := fun c hc => isDecimalDigit_of_isAsciiDigit ((h.exponent e he).digits c hc) }

theorem isAscii_iff : n.isAscii = true ↔ (∀ c ∈ n.significand, isAsciiDigit c = true) ∧
    ∀ e ∈ n.exponent, ∀ c ∈ e.digits, isAsciiDigit c = true := by
  rw [isAscii, Bool.and_eq_true, List.all_eq_true]
  cases n.exponent <;> simp

theorem isOver_ascii_iff :
    n.IsOver isAsciiDigit ↔ n.IsOver isDecimalDigit ∧ n.isAscii = true := by
  rw [isAscii_iff]
  constructor
  · exact fun h => ⟨h.decimal, h.significand, fun e he => (h.exponent e he).digits⟩
  · rintro ⟨h, hsignificand, hexponent⟩
    exact ⟨h.ne_nil, hsignificand, fun e he =>
      ⟨(h.exponent e he).letter, (h.exponent e he).ne_nil, hexponent e he⟩⟩

/-- The digits of a numeral are ASCII digits iff those in its text are. -/
theorem IsOver.isAscii_iff_asciiDigits (h : n.IsOver isDecimalDigit) :
    n.isAscii = true ↔ AsciiDigits n.chars := by
  rw [isAscii_iff]
  constructor
  · rintro hascii c hc hdigit
    have hover : n.IsOver isAsciiDigit := isOver_ascii_iff.mpr ⟨h, isAscii_iff.mpr hascii⟩
    rcases mem_chars hover hc with hc | rfl | rfl | rfl | rfl | rfl
    · exact hc
    all_goals exact absurd hdigit (by decide)
  · exact fun hdigits =>
      ⟨fun c hc => hdigits c (mem_chars_of_mem_significand hc) (h.significand c hc),
        fun e he c hc => hdigits c (mem_chars_of_mem_digits he hc) ((h.exponent e he).digits c hc)⟩

theorem IsOver.ascii (h : n.IsOver isDecimalDigit) (hdigits : AsciiDigits n.chars) :
    n.IsOver isAsciiDigit :=
  isOver_ascii_iff.mpr ⟨h, h.isAscii_iff_asciiDigits.mpr hdigits⟩

theorem chars_inj (h : n.IsOver isDecimalDigit) (h' : n'.IsOver isDecimalDigit)
    (heq : n.chars = n'.chars) : n = n' := by
  have hread := read?_chars h
  rw [heq, read?_chars h'] at hread
  exact (Option.some.inj hread).symm

end Numeral

/-- A text denotes one number at most. -/
theorem denotes_unique {cs : List Char} {v w : ℚ} (hv : Denotes cs v) (hw : Denotes cs w) :
    v = w := by
  obtain ⟨n, hn, rfl, rfl⟩ := hv
  obtain ⟨n', hn', heq, rfl⟩ := hw
  rw [Numeral.chars_inj hn.decimal hn'.decimal heq.symm]

/-! ## Underflow -/

namespace Numeral

variable {n : Numeral}

/-- The mantissa is below the power of ten that its digits are counted by, and, unless it is zero,
not below the tenth of it. -/
theorem mantissa_bounds (h : n.IsOver isAsciiDigit) :
    n.mantissa < 10 ^ n.digitCount ∧ (n.mantissa ≠ 0 → 10 ^ n.digitCount ≤ 10 * n.mantissa) := by
  have hdigits : ∀ c ∈ n.significand.dropWhile (· == '0'), isAsciiDigit c = true :=
    fun c hc => h.significand c ((List.dropWhile_sublist _).subset hc)
  have hfirst := List.head?_dropWhile_not (· == '0') n.significand
  have hvalue : n.mantissa = decimalValue (n.significand.dropWhile (· == '0')) :=
    (decimalValue_dropWhile_zeros n.significand).symm
  rw [digitCount, hvalue]
  generalize n.significand.dropWhile (· == '0') = digits at hdigits hfirst
  refine ⟨decimalValue_lt hdigits, fun hne => ?_⟩
  cases digits with
  | nil => exact absurd rfl hne
  | cons c cs =>
    have hle := @le_decimalValue c cs (hdigits c List.mem_cons_self) (by simpa using hfirst)
    rw [List.length_cons, Nat.pow_succ]
    omega

theorem cast_pow_pos {b : ℕ} (hb : 0 < b) (k : ℕ) : (0 : ℚ) < ((b ^ k : ℕ) : ℚ) :=
  Nat.cast_pos.mpr (Nat.pow_pos hb)

theorem zpow_neg_natCast (b k : ℕ) : (b : ℚ) ^ (-(k : ℤ)) = ((b ^ k : ℕ) : ℚ)⁻¹ := by
  rw [zpow_neg, zpow_natCast, Nat.cast_pow]

/-- Half of the least positive floating-point number lies between these powers of ten. -/
theorem half_least_bounds :
    (10 : ℚ) ^ (-324 : ℤ) ≤ 2 ^ (-1075 : ℤ) ∧ (2 : ℚ) ^ (-1075 : ℤ) < 10 ^ (-323 : ℤ) := by
  have hle : 2 ^ 1075 ≤ 10 ^ 324 := by decide +kernel
  have hlt : 10 ^ 323 < 2 ^ 1075 := by decide +kernel
  have h2 := zpow_neg_natCast 2 1075
  have h10 := zpow_neg_natCast 10 324
  have h10' := zpow_neg_natCast 10 323
  constructor
  · refine h10.trans_le (le_of_le_of_eq ?_ h2.symm)
    exact (inv_le_inv₀ (cast_pow_pos (by decide) 324) (cast_pow_pos (by decide) 1075)).mpr
      (Nat.cast_le.mpr hle)
  · refine h2.trans_lt (lt_of_lt_of_eq ?_ h10'.symm)
    exact (inv_lt_inv₀ (cast_pow_pos (by decide) 1075) (cast_pow_pos (by decide) 323)).mpr
      (Nat.cast_lt.mpr hlt)

/-- Scaled to whole numbers, the comparison of a decimal with a power of two is one of products. -/
theorem mul_zpow_le_iff {a : ℕ} {b : ℤ} (m k j : ℕ) (hb : b = -(j : ℤ)) (ha : a = 2 ^ j) :
    (m : ℚ) * 10 ^ (-(k : ℤ)) ≤ 2 ^ b ↔ m * a ≤ Nat.pow 10 k := by
  have h2 := zpow_neg_natCast 2 j
  have h10 := zpow_neg_natCast 10 k
  rw [Nat.cast_ofNat] at h2 h10
  rw [hb, ha]
  calc (m : ℚ) * 10 ^ (-(k : ℤ)) ≤ 2 ^ (-(j : ℤ))
      ↔ (m : ℚ) / ((10 ^ k : ℕ) : ℚ) ≤ 1 / ((2 ^ j : ℕ) : ℚ) := by
        rw [div_eq_mul_inv, one_div, h10, h2]
    _ ↔ ((m * 2 ^ j : ℕ) : ℚ) ≤ ((10 ^ k : ℕ) : ℚ) := by
        rw [div_le_div_iff₀ (cast_pow_pos (by decide) k) (cast_pow_pos (by decide) j), one_mul,
          Nat.cast_mul]
    _ ↔ m * 2 ^ j ≤ Nat.pow 10 k := Nat.cast_le

theorem underflows_eq_true_iff {m d : ℕ} {s : ℤ} : underflows m d s = true ↔
    m = 0 ∨ d + s ≤ -324 ∨ d + s = -323 ∧ (m : ℚ) * 10 ^ s ≤ 2 ^ (-1075 : ℤ) := by
  rw [underflows, Bool.or_eq_true, Bool.or_eq_true, Bool.and_eq_true, beq_iff_eq, beq_iff_eq,
    decide_eq_true_iff, decide_eq_true_iff, or_assoc]
  refine or_congr_right (or_congr_right (and_congr_right fun hs => ?_))
  obtain ⟨k, rfl⟩ : ∃ k : ℕ, s = -(k : ℤ) := ⟨(-s).toNat, by omega⟩
  rw [neg_neg, Int.toNat_natCast]
  exact (mul_zpow_le_iff m k 1075 rfl (by decide +kernel)).symm

/-- A decimal whose mantissa has `d` digits underflows iff it is at most half of the least positive
floating-point number. -/
theorem underflows_iff {m d : ℕ} {s : ℤ} (hlt : m < 10 ^ d) (hle : m ≠ 0 → 10 ^ d ≤ 10 * m) :
    underflows m d s = true ↔ (m : ℚ) * 10 ^ s ≤ 2 ^ (-1075 : ℤ) := by
  rw [underflows_eq_true_iff]
  by_cases hm : m = 0
  · refine iff_of_true (Or.inl hm) ?_
    rw [hm, Nat.cast_zero, zero_mul]
    positivity
  -- the number lies in the decade that its first digit stands in
  have hdecade : (10 : ℚ) ^ (d + s) = (10 ^ d : ℕ) * 10 ^ s := by
    rw [zpow_add₀ (by norm_num), zpow_natCast, Nat.cast_pow, Nat.cast_ofNat]
  have hpos : (0 : ℚ) < 10 ^ s := by positivity
  have hupper : (m : ℚ) * 10 ^ s < 10 ^ (d + s) := by
    rw [hdecade]
    exact mul_lt_mul_of_pos_right (Nat.cast_lt.mpr hlt) hpos
  have hlower : (10 : ℚ) ^ (d + s - 1) ≤ m * 10 ^ s := by
    have hten : ((10 ^ d : ℕ) : ℚ) ≤ 10 * m := by exact_mod_cast hle hm
    rw [zpow_sub_one₀ (by norm_num), hdecade, ← div_eq_mul_inv, div_le_iff₀ (by norm_num)]
    nlinarith
  rcases lt_trichotomy (d + s) (-323) with hs | hs | hs
  · refine iff_of_true (Or.inr (Or.inl (by omega))) ?_
    calc (m : ℚ) * 10 ^ s ≤ 10 ^ (d + s) := hupper.le
      _ ≤ 10 ^ (-324 : ℤ) := zpow_le_zpow_right₀ (by norm_num) (by omega)
      _ ≤ 2 ^ (-1075 : ℤ) := half_least_bounds.1
  · exact (or_iff_right hm).trans ((or_iff_right (by omega)).trans (and_iff_right hs))
  · refine iff_of_false ?_ (not_le.mpr ?_)
    · rintro (h | h | ⟨h, -⟩)
      · exact hm h
      · omega
      · omega
    · calc (2 : ℚ) ^ (-1075 : ℤ) < 10 ^ (-323 : ℤ) := half_least_bounds.2
        _ ≤ 10 ^ (d + s - 1) := zpow_le_zpow_right₀ (by norm_num) (by omega)
        _ ≤ m * 10 ^ s := hlower

/-- A numeral in ASCII digits counts as zero iff the number that it denotes is at most half of the
least positive floating-point number. -/
theorem isZero_iff (h : n.IsOver isAsciiDigit) :
    n.isZero = true ↔ |n.value| ≤ 2 ^ (-1075 : ℤ) := by
  obtain ⟨hlt, hle⟩ := mantissa_bounds h
  rw [isZero, (isOver_ascii_iff.mp h).2, Bool.true_and, underflows_iff hlt hle, abs_value]

end Numeral

end ReactorSynth
