import ReactorSynth.Proofs.NumeralValues
import ReactorSynth.Typing

/-!
# Lone zeros

A lone zero has no type, because it may as well be a count, and it is lowered to a bare `0`. What a
numeral is and what a zero is are two tests, and they disagree on digits: numerals take the digits
of every script, while the number of a text is read from ASCII digits alone
(`Numeral.floatTexts`).

* `Numeral.chars_mem_floatTexts_iff`: of the numerals, those in ASCII digits are the ones that have
  a number.
* `Numeral.isZero_of_zeros`: a numeral of zero digits alone counts as zero iff it has a number.
* **`Value.zero_digits_iff`**: so the zero of another script, or one with such a digit in its
  exponent, is a numeral that is not zero; standing alone it has the type of times, and it is
  lowered as written.
-/

namespace ReactorSynth

open Computability Text

variable {cs : List Char} {n : Numeral}

/-! ## Numbers and numerals -/

namespace Numeral

/-- The words that stand for a number, in any case. -/
def floatWords : Language Char :=
  {cs | cs.map Char.toLower ∈ ["inf".toList, "infinity".toList, "nan".toList]}

/-- The texts that a floating-point number can be read from: numerals in ASCII digits, and the words
for infinity and for no number. -/
def floatTexts : Language Char := texts isAsciiDigit + optional signs * floatWords

/-- A numeral is no word: every word has a letter that no numeral has. -/
theorem chars_not_mem_words (hn : n.IsOver isDecimalDigit) :
    n.chars ∉ optional signs * floatWords := by
  rintro ⟨sign, -, word, hword, heq⟩
  have hletter : ∀ w ∈ ["inf".toList, "infinity".toList, "nan".toList], 'n' ∈ w := by decide
  obtain ⟨c, hc, hlower⟩ := List.mem_map.mp (hletter _ hword)
  have hmem : c ∈ n.chars := heq ▸ List.mem_append_right sign hc
  rcases mem_chars hn hmem with hdigit | rfl | rfl | rfl | rfl | rfl
  · have := of_isDecimalDigit (p := fun c => c.toLower != 'n') (by decide +kernel) hdigit
    exact bne_iff_ne.mp this hlower
  all_goals exact absurd hlower (by decide)

/-- Of the numerals, those in ASCII digits are the ones that have a number. -/
theorem chars_mem_floatTexts_iff (hn : n.IsOver isDecimalDigit) :
    n.chars ∈ floatTexts ↔ n.isAscii = true := by
  unfold floatTexts
  rw [Language.mem_add, or_iff_left (chars_not_mem_words hn), mem_texts_iff]
  constructor
  · rintro ⟨n', hn', heq⟩
    rw [← chars_inj hn'.decimal hn heq]
    exact (isOver_ascii_iff.mp hn').2
  · exact fun h => ⟨n, isOver_ascii_iff.mpr ⟨hn, h⟩, rfl⟩

end Numeral

/-! ## Zero digits -/

namespace Text

/-- Whether a character is the digit zero of some script. -/
def isZeroDigit (c : Char) : Bool := digitZeros.contains c.toNat

theorem eq_zero_of_isZeroDigit {c : Char} (hzero : isZeroDigit c = true)
    (hascii : isAsciiDigit c = true) : c = '0' := by
  have hcode := code_of_isAsciiDigit hascii
  have honly : ∀ first ∈ digitZeros, first ≤ 57 → first = 48 := by decide
  rw [← Char.ofNat_toNat c, honly c.toNat (List.contains_iff_mem.mp hzero) hcode.2]

theorem decimalValue_of_zeros (h : ∀ c ∈ cs, c = '0') : decimalValue cs = 0 := by
  rw [List.eq_replicate_of_mem h]
  induction cs.length with
  | zero => rfl
  | succ k ih => rw [List.replicate_succ, decimalValue_cons, ih]; rfl

end Text

/-- A numeral of zero digits alone, its exponent apart, counts as zero iff it has a number. -/
theorem Numeral.isZero_of_zeros (hzeros : ∀ c ∈ n.significand, isZeroDigit c = true) :
    n.isZero = n.isAscii := by
  cases hascii : n.isAscii with
  | false => rw [isZero, hascii, Bool.false_and]
  | true =>
    have hmantissa : n.mantissa = 0 := decimalValue_of_zeros fun c hc =>
      eq_zero_of_isZeroDigit (hzeros c hc) ((isAscii_iff.mp hascii).1 c hc)
    rw [isZero, hascii, hmantissa, underflows]
    rfl

/-! ## Literals -/

namespace Value

/-- The text holds a numeral of zero digits alone, its exponent apart. -/
def IsZeroDigits (text : String) : Prop :=
  ∃ n, Numeral.ofText? text = some n ∧ ∀ c ∈ n.significand, isZeroDigit c = true

theorem infer_literal (scope : Scope) (text : String) (h : isNumeral text = true) :
    Typing.infer scope none [literal text] =
      if (literal text).isZero then .undefined else .time := by
  cases hzero : (literal text).isZero <;>
    simp [Typing.infer, Typing.inferWithin, Typing.ofDeclaration, Typing.ofValues,
      Typing.mayBeTime, h, hzero]

/-- **Zeros in other digits.** A numeral can be read as a floating-point number iff its digits are
ASCII digits. A numeral of zero digits counts as zero iff they are; then, standing alone, it has no
type and is lowered to a bare zero, and otherwise it has the type of times in every scope and is
lowered as written. -/
theorem zero_digits_iff (text : String) (hnumeral : isNumeral text = true) :
    (trimList text.toList ∈ Numeral.floatTexts ↔ AsciiDigits text.toList) ∧
    (IsZeroDigits text →
      ((literal text).isZero = true ↔ AsciiDigits text.toList) ∧
      (∀ scope, Typing.infer scope none [literal text] =
        if AsciiDigits text.toList then .undefined else .time) ∧
      (literal text).lowered = if AsciiDigits text.toList then "0" else text) := by
  obtain ⟨n, hread⟩ := Option.isSome_iff_exists.mp hnumeral
  obtain ⟨hn, hchars⟩ := Numeral.ofText?_eq_some_iff.mp hread
  have hascii : n.isAscii = true ↔ AsciiDigits text.toList := by
    rw [hn.isAscii_iff_asciiDigits, hchars, asciiDigits_trimList]
  refine ⟨?_, ?_⟩
  · rw [← hchars, Numeral.chars_mem_floatTexts_iff hn, hascii]
  · rintro ⟨n', hread', hzeros⟩
    obtain rfl := Option.some.inj (hread.symm.trans hread')
    have hzero : (literal text).isZero = true ↔ AsciiDigits text.toList := by
      rw [isZero, isZeroNumeral, hread, Option.any_some, Numeral.isZero_of_zeros hzeros, hascii]
    refine ⟨hzero, fun scope => ?_, ?_⟩
    · simp only [infer_literal scope text hnumeral, hzero]
    · simp only [lowered, hzero]
      rfl

/-- A zero with a sign, a point and an exponent, between white space, is lowered to a bare zero. -/
theorem zero_digits_iff_minusZero :
    isNumeral " -0.00e7 " = true ∧ IsZeroDigits " -0.00e7 " ∧ AsciiDigits " -0.00e7 ".toList ∧
      trimList " -0.00e7 ".toList ∈ Numeral.floatTexts ∧
      (literal " -0.00e7 ").isZero = true ∧
      (∀ scope, Typing.infer scope none [literal " -0.00e7 "] = .undefined) ∧
      (literal " -0.00e7 ").lowered = "0" := by
  have hnumeral : isNumeral " -0.00e7 " = true := by decide +kernel
  have hascii : AsciiDigits " -0.00e7 ".toList := by decide +kernel
  have hzeros : IsZeroDigits " -0.00e7 " :=
    ⟨⟨some .minus, ['0'], some ['0', '0'], some ⟨'e', none, ['7']⟩⟩, by decide +kernel,
      List.all_eq_true.mp rfl⟩
  obtain ⟨hfloat, hzero⟩ := zero_digits_iff " -0.00e7 " hnumeral
  obtain ⟨hisZero, hinfer, hlowered⟩ := hzero hzeros
  refine ⟨hnumeral, hzeros, hascii, hfloat.mpr hascii, hisZero.mpr hascii, fun scope => ?_, ?_⟩
  · rw [hinfer, if_pos hascii]
  · rw [hlowered, if_pos hascii]

/-- The Arabic-Indic zero is a numeral of zero digits alone, and yet no floating-point number is
read from it, it is not zero, it has the type of times in every scope, and it is lowered as
written. -/
theorem zero_digits_arabicIndic :
    isNumeral "\u0660" = true ∧ IsZeroDigits "\u0660" ∧
      trimList "\u0660".toList ∉ Numeral.floatTexts ∧ (literal "\u0660").isZero = false ∧
      (∀ scope, Typing.infer scope none [literal "\u0660"] = .time) ∧
      (literal "\u0660").lowered = "\u0660" ∧ (literal "\u0660").lowered ≠ "0" := by
  have hread : Numeral.ofText? "\u0660" = some ⟨none, ['\u0660'], none, none⟩ := by decide +kernel
  have hnumeral : isNumeral "\u0660" = true := by decide +kernel
  have hover := Numeral.ofText?_eq_some_iff.mp hread
  have hzero : (literal "\u0660").isZero = false := by decide +kernel
  have hlowered : (literal "\u0660").lowered = "\u0660" := by decide +kernel
  refine ⟨hnumeral, ⟨_, hread, List.all_eq_true.mp rfl⟩, ?_, hzero, fun scope => ?_, hlowered, ?_⟩
  · rw [← hover.2, Numeral.chars_mem_floatTexts_iff hover.1]
    decide
  · rw [infer_literal scope _ hnumeral, hzero]
    rfl
  · rw [hlowered]
    decide

end Value

end ReactorSynth
