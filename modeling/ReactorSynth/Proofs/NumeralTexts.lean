import Mathlib.Computability.Language
import Mathlib.Data.List.TakeWhile
import ReactorSynth.Numeral

/-!
# Texts of numerals

The texts of numerals form a regular language (`Numeral.texts`), stated here for any class of
digits: an optional sign, digits with a point behind them, among them, in front of them or none,
and an optional exponent. The texts whose leading point is spelled out form another one
(`Numeral.abbreviations`).

* `Numeral.read?_eq_some_iff`: the reader accepts the texts that numerals are written as, and gives
  back the numeral, so that a text is taken apart in one way.
* `Numeral.mem_texts_iff`: these are the texts of the regular language.
-/

namespace ReactorSynth

open Computability Text

variable {p digit : Char → Bool} {cs : List Char} {n : Numeral}

/-! ## Regular languages of characters -/

namespace Numeral

/-- The texts of one character of a class. -/
def one (p : Char → Bool) : Language Char := {cs | ∃ c, p c = true ∧ cs = [c]}

/-- The texts of a language, and the empty text. -/
def optional (l : Language Char) : Language Char := 1 + l

/-- The texts of one character or more of a class. -/
def many (p : Char → Bool) : Language Char := one p * (one p)∗

/-- The texts of a sign. -/
def signs : Language Char := one fun c => c == '+' || c == '-'

/-- The text of a point. -/
def point : Language Char := one (· == '.')

/-- The texts of digits with at most one point, and a digit in front of the point or behind it. -/
def mantissas (digit : Char → Bool) : Language Char :=
  many digit * optional (point * (one digit)∗) + point * many digit

/-- The texts of an exponent. -/
def exponents (digit : Char → Bool) : Language Char :=
  (one fun c => c == 'e' || c == 'E') * optional signs * many digit

/-- The texts of numerals over a class of digits. -/
def texts (digit : Char → Bool) : Language Char :=
  optional signs * mantissas digit * optional (exponents digit)

/-- The texts that have their leading point spelled out: an optional sign, a point, decimal digits,
and then digits, exponent letters and signs in any order. -/
def abbreviations : Language Char :=
  optional signs * point * many isDecimalDigit *
    (one fun c => isDecimalDigit c || c == 'e' || c == 'E' || c == '+' || c == '-')∗

theorem mem_optional_iff {l : Language Char} : cs ∈ optional l ↔ cs = [] ∨ cs ∈ l :=
  Language.mem_add 1 l cs

theorem mem_star_one_iff : cs ∈ (one p)∗ ↔ ∀ c ∈ cs, p c = true := by
  rw [Language.mem_kstar]
  constructor
  · rintro ⟨parts, rfl, hparts⟩ c hc
    obtain ⟨part, hpart, hc⟩ := List.mem_flatten.mp hc
    obtain ⟨d, hd, rfl⟩ := hparts part hpart
    rwa [List.mem_singleton.mp hc]
  · intro h
    refine ⟨cs.map ([·]), ?_, ?_⟩
    · induction cs with
      | nil => rfl
      | cons c cs ih =>
        rw [List.map_cons, List.flatten_cons, ← ih (List.forall_mem_cons.mp h).2,
          List.singleton_append]
    · intro part hpart
      obtain ⟨c, hc, rfl⟩ := List.mem_map.mp hpart
      exact ⟨c, h c hc, rfl⟩

theorem mem_one_mul_iff {l : Language Char} :
    cs ∈ one p * l ↔ ∃ c rest, p c = true ∧ rest ∈ l ∧ cs = c :: rest := by
  rw [Language.mem_mul]
  constructor
  · rintro ⟨_, ⟨c, hc, rfl⟩, rest, hrest, rfl⟩
    exact ⟨c, rest, hc, hrest, rfl⟩
  · rintro ⟨c, rest, hc, hrest, rfl⟩
    exact ⟨[c], ⟨c, hc, rfl⟩, rest, hrest, rfl⟩

theorem mem_point_mul_iff {l : Language Char} :
    cs ∈ point * l ↔ ∃ rest ∈ l, cs = '.' :: rest := by
  rw [point, mem_one_mul_iff]
  constructor
  · rintro ⟨c, rest, hc, hrest, rfl⟩
    exact ⟨rest, hrest, by rw [beq_iff_eq.mp hc]⟩
  · rintro ⟨rest, hrest, rfl⟩
    exact ⟨'.', rest, rfl, hrest, rfl⟩

theorem mem_many_iff : cs ∈ many p ↔ cs ≠ [] ∧ ∀ c ∈ cs, p c = true := by
  rw [many, mem_one_mul_iff]
  simp only [mem_star_one_iff]
  constructor
  · rintro ⟨c, rest, hc, hrest, rfl⟩
    exact ⟨List.cons_ne_nil c rest, List.forall_mem_cons.mpr ⟨hc, hrest⟩⟩
  · rintro ⟨hne, h⟩
    obtain ⟨c, rest, rfl⟩ := List.exists_cons_of_ne_nil hne
    exact ⟨c, rest, (List.forall_mem_cons.mp h).1, (List.forall_mem_cons.mp h).2, rfl⟩

end Numeral

/-! ## Signs -/

namespace Sign

theorem ofChar?_char (s : Sign) : ofChar? s.char = some s := by
  cases s <;> rfl

theorem char_of_ofChar? {c : Char} {s : Sign} (h : ofChar? c = some s) : s.char = c := by
  unfold ofChar? at h
  split_ifs at h with hplus hminus
  · rw [← Option.some.inj h, hplus]
    rfl
  · rw [← Option.some.inj h, hminus]
    rfl

/-- The sign at the start of a text and the rest make up the text. -/
theorem chars_append_take (cs : List Char) : chars (take cs).1 ++ (take cs).2 = cs := by
  cases cs with
  | nil => rfl
  | cons c cs =>
    cases h : ofChar? c with
    | none => simp [take, h, chars]
    | some s => simp [take, h, chars, char_of_ofChar? h]

/-- Behind its sign, a text without a further one in front is left as it is. -/
theorem take_append {s : Option Sign}
    (hcs : ∀ c ∈ cs.head?, ofChar? c = none) : take (chars s ++ cs) = (s, cs) := by
  cases s with
  | some s => simp [chars, take, ofChar?_char]
  | none =>
    cases cs with
    | nil => rfl
    | cons c cs => simp [chars, take, hcs c rfl]

theorem mem_optional_signs_iff :
    cs ∈ Numeral.optional Numeral.signs ↔ ∃ s, chars s = cs := by
  rw [Numeral.mem_optional_iff]
  constructor
  · rintro (rfl | ⟨c, hc, rfl⟩)
    · exact ⟨none, rfl⟩
    · rcases (Bool.or_eq_true _ _).mp hc with hc | hc
      · exact ⟨some plus, by rw [beq_iff_eq.mp hc]; rfl⟩
      · exact ⟨some minus, by rw [beq_iff_eq.mp hc]; rfl⟩
  · rintro ⟨s, rfl⟩
    rcases s with - | - | -
    · exact Or.inl rfl
    · exact Or.inr ⟨'+', rfl, rfl⟩
    · exact Or.inr ⟨'-', rfl, rfl⟩

end Sign

/-! ## Numerals over a class of digits -/

/-- The parts of an exponent are what its text needs: a letter, and digits, at least one. -/
structure Exponent.IsOver (digit : Char → Bool) (e : Exponent) : Prop where
  letter : Exponent.isLetter e.letter = true
  ne_nil : e.digits ≠ []
  digits : ∀ c ∈ e.digits, digit c = true

/-- The parts of a numeral are what its text needs: digits alone, and at least one of them apart
from those of the exponent. -/
structure Numeral.IsOver (digit : Char → Bool) (n : Numeral) : Prop where
  ne_nil : n.significand ≠ []
  significand : ∀ c ∈ n.significand, digit c = true
  exponent : ∀ e ∈ n.exponent, e.IsOver digit

theorem Exponent.mem_exponents_iff :
    cs ∈ Numeral.exponents digit ↔ ∃ e : Exponent, e.IsOver digit ∧ e.chars = cs := by
  unfold Numeral.exponents
  rw [mul_assoc, Numeral.mem_one_mul_iff]
  constructor
  · rintro ⟨letter, _, hletter, ⟨_, hsign, digits, hdigits, rfl⟩, rfl⟩
    obtain ⟨sign, rfl⟩ := Sign.mem_optional_signs_iff.mp hsign
    obtain ⟨hne, hdigits⟩ := Numeral.mem_many_iff.mp hdigits
    exact ⟨⟨letter, sign, digits⟩, ⟨hletter, hne, hdigits⟩, rfl⟩
  · rintro ⟨e, he, rfl⟩
    exact ⟨e.letter, _, he.letter,
      Language.append_mem_mul (Sign.mem_optional_signs_iff.mpr ⟨e.sign, rfl⟩)
        (Numeral.mem_many_iff.mpr ⟨he.ne_nil, he.digits⟩), rfl⟩

namespace Numeral

/-- The text of an optional exponent. -/
def exponentChars (e : Option Exponent) : List Char := (e.map Exponent.chars).getD []

theorem chars_eq (n : Numeral) :
    n.chars =
      Sign.chars n.sign ++ (n.whole ++ fractionChars n.fraction) ++ exponentChars n.exponent := by
  simp only [chars, exponentChars, List.append_assoc]

theorem mem_mantissas_iff : cs ∈ mantissas digit ↔
    ∃ whole fraction, whole ++ fraction.getD [] ≠ [] ∧
      (∀ c ∈ whole ++ fraction.getD [], digit c = true) ∧ whole ++ fractionChars fraction = cs := by
  unfold mantissas
  rw [Language.mem_add, Language.mem_mul, mem_point_mul_iff]
  simp only [mem_many_iff, mem_optional_iff, mem_point_mul_iff, mem_star_one_iff]
  constructor
  · rintro (⟨whole, ⟨hne, hwhole⟩, _, rfl | ⟨digits, hdigits, rfl⟩, rfl⟩ |
      ⟨digits, ⟨hne, hdigits⟩, rfl⟩)
    · exact ⟨whole, none, by simpa using hne, by simpa using hwhole, rfl⟩
    · refine ⟨whole, some digits, ?_, ?_, rfl⟩
      · exact List.append_ne_nil_of_left_ne_nil hne _
      · exact List.forall_mem_append.mpr ⟨hwhole, hdigits⟩
    · exact ⟨[], some digits, hne, hdigits, rfl⟩
  · rintro ⟨whole, fraction, hne, hdigits, rfl⟩
    rw [List.forall_mem_append] at hdigits
    by_cases hwhole : whole = []
    · cases fraction with
      | none => exact absurd hwhole (by simpa using hne)
      | some digits =>
        refine Or.inr ⟨digits, ⟨?_, hdigits.2⟩, ?_⟩
        · simpa [hwhole] using hne
        · simp [hwhole, fractionChars]
    · refine Or.inl ⟨whole, ⟨hwhole, hdigits.1⟩, fractionChars fraction, ?_, rfl⟩
      cases fraction with
      | none => exact Or.inl rfl
      | some digits => exact Or.inr ⟨digits, hdigits.2, rfl⟩

theorem mem_optional_exponents_iff : cs ∈ optional (exponents digit) ↔
    ∃ e : Option Exponent, (∀ e' ∈ e, e'.IsOver digit) ∧ exponentChars e = cs := by
  rw [mem_optional_iff, Exponent.mem_exponents_iff]
  constructor
  · rintro (rfl | ⟨e, he, rfl⟩)
    · exact ⟨none, by simp, rfl⟩
    · exact ⟨some e, by simpa using he, rfl⟩
  · rintro ⟨e, he, rfl⟩
    cases e with
    | none => exact Or.inl rfl
    | some e => exact Or.inr ⟨e, he e rfl, rfl⟩

/-- The texts of the regular language are those that numerals are written as. -/
theorem mem_texts_iff : cs ∈ texts digit ↔ ∃ n : Numeral, n.IsOver digit ∧ n.chars = cs := by
  unfold texts
  constructor
  · rintro ⟨_, ⟨_, hsign, _, hmantissa, rfl⟩, _, hexponent, rfl⟩
    obtain ⟨sign, rfl⟩ := Sign.mem_optional_signs_iff.mp hsign
    obtain ⟨whole, fraction, hne, hdigits, rfl⟩ := mem_mantissas_iff.mp hmantissa
    obtain ⟨exponent, he, rfl⟩ := mem_optional_exponents_iff.mp hexponent
    exact ⟨⟨sign, whole, fraction, exponent⟩, ⟨hne, hdigits, he⟩, chars_eq _⟩
  · rintro ⟨n, hn, rfl⟩
    rw [chars_eq]
    refine Language.append_mem_mul (Language.append_mem_mul ?_ ?_) ?_
    · exact Sign.mem_optional_signs_iff.mpr ⟨n.sign, rfl⟩
    · exact mem_mantissas_iff.mpr ⟨n.whole, n.fraction, hn.ne_nil, hn.significand, rfl⟩
    · exact mem_optional_exponents_iff.mpr ⟨n.exponent, hn.exponent, rfl⟩

end Numeral

/-! ## Runs of digits -/

namespace Text

/-- A text is cut where its first characters stop being of a class. -/
theorem span_append {a b : List Char} (ha : ∀ c ∈ a, p c = true)
    (hb : ∀ c ∈ b.head?, p c = false) : (a ++ b).takeWhile p = a ∧ (a ++ b).dropWhile p = b := by
  rw [List.takeWhile_append_of_pos ha, List.dropWhile_append_of_pos ha]
  cases b with
  | nil => exact ⟨by simp, rfl⟩
  | cons c b => simp [hb c rfl]

/-- What holds of the ten digits of every script holds of decimal digits. -/
theorem of_isDecimalDigit {c : Char}
    (h : ∀ first ∈ digitZeros, ∀ k < 10, p (Char.ofNat (first + k)) = true)
    (hc : isDecimalDigit c = true) : p c = true := by
  obtain ⟨first, hfirst, hrange⟩ := List.any_eq_true.mp hc
  rw [Bool.and_eq_true, decide_eq_true_eq, decide_eq_true_eq] at hrange
  have hp := h first hfirst (c.toNat - first) (by omega)
  rwa [Nat.add_sub_of_le hrange.1, Char.ofNat_toNat] at hp

theorem not_isBlank_of_isDecimalDigit {c : Char} (h : isDecimalDigit c = true) :
    isBlank c = false := by
  have := of_isDecimalDigit (p := fun c => !isBlank c) (by decide +kernel) h
  simpa using this

theorem isDecimalDigit_of_isAsciiDigit {c : Char} (h : isAsciiDigit c = true) :
    isDecimalDigit c = true := by
  simp only [isAsciiDigit, Bool.and_eq_true, decide_eq_true_eq, Char.le_def,
    UInt32.le_iff_toNat_le] at h
  have hcode : 0x30 ≤ c.toNat ∧ c.toNat ≤ 0x39 := h
  refine List.any_eq_true.mpr ⟨0x30, List.mem_cons_self, ?_⟩
  rw [Bool.and_eq_true, decide_eq_true_eq, decide_eq_true_eq]
  omega

end Text

theorem Sign.ofChar?_eq_none_of_isDecimalDigit {c : Char} (h : isDecimalDigit c = true) :
    Sign.ofChar? c = none := by
  have := of_isDecimalDigit (p := fun c => (Sign.ofChar? c).isNone) (by decide +kernel) h
  simpa using this

theorem Sign.ofChar?_head?_of_digits (h : ∀ c ∈ cs, isDecimalDigit c = true) :
    ∀ c ∈ cs.head?, Sign.ofChar? c = none :=
  fun c hc => Sign.ofChar?_eq_none_of_isDecimalDigit (h c (List.mem_of_mem_head? hc))

/-! ## Reading -/

namespace Exponent

theorem isLetter_iff {c : Char} : isLetter c = true ↔ c = 'e' ∨ c = 'E' := by
  rw [isLetter, Bool.or_eq_true, beq_iff_eq, beq_iff_eq]

/-- The reader accepts the texts of exponents and takes them apart. -/
theorem read?_eq_some_iff {e : Exponent} :
    read? cs = some e ↔ e.IsOver isDecimalDigit ∧ e.chars = cs := by
  constructor
  · intro h
    cases cs with
    | nil => exact absurd h (by simp [read?])
    | cons letter rest =>
      obtain ⟨hparts, he⟩ := (Option.ite_none_right_eq_some).mp h
      simp only [Bool.and_eq_true, Bool.not_eq_true', List.isEmpty_eq_false_iff,
        List.all_eq_true] at hparts
      obtain rfl := Option.some.inj he
      exact ⟨⟨hparts.1.1, hparts.1.2, hparts.2⟩,
        congrArg (letter :: ·) (Sign.chars_append_take rest)⟩
  · rintro ⟨he, rfl⟩
    have htake := Sign.take_append (s := e.sign) (Sign.ofChar?_head?_of_digits he.digits)
    simp [read?, chars, htake, he.letter, he.ne_nil, List.all_eq_true.mpr he.digits]

end Exponent

namespace Numeral

/-- Behind the digits of a numeral stands the letter of its exponent, or nothing. -/
theorem head?_exponentChars {e : Option Exponent} (he : ∀ e' ∈ e, e'.IsOver isDecimalDigit) :
    ∀ c ∈ (exponentChars e).head?, c = 'e' ∨ c = 'E' := by
  intro c hc
  cases e with
  | none => exact absurd hc (by simp [exponentChars])
  | some e =>
    obtain rfl : e.letter = c := by simpa [exponentChars, Exponent.chars] using hc
    exact Exponent.isLetter_iff.mp (he e rfl).letter

theorem takeFraction_append {fraction : Option (List Char)} {rest : List Char}
    (hfraction : ∀ c ∈ fraction.getD [], isDecimalDigit c = true)
    (hrest : ∀ c ∈ rest.head?, c = 'e' ∨ c = 'E') :
    takeFraction (fractionChars fraction ++ rest) = (fraction, rest) := by
  cases fraction with
  | none =>
    cases rest with
    | nil => rfl
    | cons c rest =>
      have hc : c ≠ '.' := by
        rcases hrest c rfl with rfl | rfl <;> decide
      simp [fractionChars, takeFraction, hc]
  | some digits =>
    have hstop : ∀ c ∈ rest.head?, isDecimalDigit c = false := by
      intro c hc
      rcases hrest c hc with rfl | rfl <;> decide
    obtain ⟨htake, hdrop⟩ := span_append hfraction hstop
    simp only [Option.getD_some] at htake hdrop
    simp [fractionChars, takeFraction, htake, hdrop]

theorem fractionChars_append_takeFraction (cs : List Char) :
    fractionChars (takeFraction cs).1 ++ (takeFraction cs).2 = cs := by
  cases cs with
  | nil => rfl
  | cons c rest =>
    by_cases hc : c = '.'
    · simp [takeFraction, fractionChars, hc]
    · simp [takeFraction, fractionChars, hc]

theorem isDecimalDigit_takeFraction (cs : List Char) :
    ∀ c ∈ (takeFraction cs).1.getD [], isDecimalDigit c = true := by
  intro c hc
  cases cs with
  | nil => exact absurd hc (by simp [takeFraction])
  | cons d rest =>
    by_cases hd : d = '.'
    · rw [takeFraction, if_pos hd] at hc
      exact List.mem_takeWhile_imp hc
    · exact absurd hc (by simp [takeFraction, hd])

/-- Behind the digits in front of the point stands the point, a letter or nothing. -/
theorem head?_behind_whole (hn : n.IsOver isDecimalDigit) :
    ∀ c ∈ (fractionChars n.fraction ++ exponentChars n.exponent).head?,
      c = '.' ∨ c = 'e' ∨ c = 'E' := by
  intro c hc
  cases hf : n.fraction with
  | none =>
    rw [hf] at hc
    exact Or.inr (head?_exponentChars hn.exponent c hc)
  | some digits =>
    rw [hf] at hc
    exact Or.inl (Option.some.inj hc).symm

theorem take_chars (hn : n.IsOver isDecimalDigit) :
    Sign.take n.chars =
      (n.sign, n.whole ++ (fractionChars n.fraction ++ exponentChars n.exponent)) := by
  rw [chars_eq, List.append_assoc, List.append_assoc]
  refine Sign.take_append fun c hc => ?_
  rw [List.head?_append] at hc
  rcases Option.or_eq_some_iff.mp hc with hc | ⟨-, hc⟩
  · exact Sign.ofChar?_head?_of_digits (List.forall_mem_append.mp hn.significand).1 c hc
  · rcases head?_behind_whole hn c hc with rfl | rfl | rfl <;> rfl

theorem read?_chars (hn : n.IsOver isDecimalDigit) : read? n.chars = some n := by
  have hdigits := List.forall_mem_append.mp hn.significand
  have hstop : ∀ c ∈ (fractionChars n.fraction ++ exponentChars n.exponent).head?,
      isDecimalDigit c = false := by
    intro c hc
    rcases head?_behind_whole hn c hc with rfl | rfl | rfl <;> decide
  obtain ⟨htake, hdrop⟩ := span_append hdigits.1 hstop
  have hfraction := takeFraction_append hdigits.2 (head?_exponentChars hn.exponent)
  have hne : ¬ (n.whole = [] ∧ n.fraction.getD [] = []) := by
    rw [← List.append_eq_nil_iff]
    exact hn.ne_nil
  rw [read?, take_chars hn]
  simp only [htake, hdrop, hfraction, Bool.and_eq_true, List.isEmpty_iff, hne, if_false]
  cases he : n.exponent with
  | none =>
    rw [if_pos (by simp [exponentChars]), ← he]
  | some e =>
    rw [if_neg (by simp [exponentChars, Exponent.chars])]
    have hread := Exponent.read?_eq_some_iff.mpr ⟨hn.exponent e he, rfl⟩
    rw [exponentChars, Option.map_some, Option.getD_some, hread, Option.map_some, ← he]

theorem of_read? (h : read? cs = some n) : n.IsOver isDecimalDigit ∧ n.chars = cs := by
  unfold read? at h
  -- the parts that the reader cuts the text into, each put back where it was
  have hsign := Sign.chars_append_take cs
  generalize Sign.take cs = cut at h hsign
  obtain ⟨sign, unsigned⟩ := cut
  have hunsigned : unsigned.takeWhile isDecimalDigit ++ unsigned.dropWhile isDecimalDigit =
      unsigned := List.takeWhile_append_dropWhile
  have hwhole : ∀ c ∈ unsigned.takeWhile isDecimalDigit, isDecimalDigit c = true :=
    fun c hc => List.mem_takeWhile_imp hc
  dsimp only at h
  generalize unsigned.takeWhile isDecimalDigit = whole at h hunsigned hwhole
  generalize unsigned.dropWhile isDecimalDigit = behind at h hunsigned
  have hbehind := fractionChars_append_takeFraction behind
  have hfraction := isDecimalDigit_takeFraction behind
  generalize takeFraction behind = cut at h hbehind hfraction
  obtain ⟨fraction, rest⟩ := cut
  subst hsign hunsigned hbehind
  obtain ⟨hempty, h⟩ := Option.ite_none_left_eq_some.mp h
  have hne : whole ++ fraction.getD [] ≠ [] := by simpa using hempty
  have hdigits := List.forall_mem_append.mpr ⟨hwhole, hfraction⟩
  split_ifs at h with hrest
  · obtain rfl := Option.some.inj h
    obtain rfl : rest = [] := List.isEmpty_iff.mp hrest
    refine ⟨⟨hne, hdigits, by simp⟩, ?_⟩
    simp [chars_eq, exponentChars]
  · obtain ⟨e, he, rfl⟩ := Option.map_eq_some_iff.mp h
    obtain ⟨hover, hchars⟩ := Exponent.read?_eq_some_iff.mp he
    refine ⟨⟨hne, hdigits, by simpa using hover⟩, ?_⟩
    simp [chars_eq, exponentChars, hchars]

/-- The reader accepts the texts that numerals are written as, and takes them apart. -/
theorem read?_eq_some_iff : read? cs = some n ↔ n.IsOver isDecimalDigit ∧ n.chars = cs := by
  constructor
  · exact of_read?
  · rintro ⟨hn, rfl⟩
    exact read?_chars hn

/-! ## White space -/

theorem mem_signChars {s : Option Sign} {c : Char} (hc : c ∈ Sign.chars s) : c = '+' ∨ c = '-' := by
  rcases s with - | - | -
  · exact absurd hc List.not_mem_nil
  · exact Or.inl (List.mem_singleton.mp hc)
  · exact Or.inr (List.mem_singleton.mp hc)

theorem mem_exponentChars {e : Option Exponent} (he : ∀ e' ∈ e, e'.IsOver digit) {c : Char}
    (hc : c ∈ exponentChars e) : digit c = true ∨ c = 'e' ∨ c = 'E' ∨ c = '+' ∨ c = '-' := by
  cases e with
  | none => exact absurd hc List.not_mem_nil
  | some e =>
    have hover := he e rfl
    rcases List.mem_cons.mp hc with rfl | hc
    · rcases Exponent.isLetter_iff.mp hover.letter with h | h
      · exact Or.inr (Or.inl h)
      · exact Or.inr (Or.inr (Or.inl h))
    · rcases List.mem_append.mp hc with hc | hc
      · exact Or.inr (Or.inr (Or.inr (mem_signChars hc)))
      · exact Or.inl (hover.digits c hc)

theorem mem_chars (hn : n.IsOver digit) {c : Char} (hc : c ∈ n.chars) :
    digit c = true ∨ c = '.' ∨ c = 'e' ∨ c = 'E' ∨ c = '+' ∨ c = '-' := by
  have hdigits := List.forall_mem_append.mp hn.significand
  rw [chars_eq] at hc
  rcases List.mem_append.mp hc with hc | hc
  · rcases List.mem_append.mp hc with hc | hc
    · exact Or.inr (Or.inr (Or.inr (Or.inr (mem_signChars hc))))
    · rcases List.mem_append.mp hc with hc | hc
      · exact Or.inl (hdigits.1 c hc)
      · cases hf : n.fraction with
        | none => exact absurd (hf ▸ hc) List.not_mem_nil
        | some digits =>
          rw [hf] at hc hdigits
          rcases List.mem_cons.mp hc with h | hc
          · exact Or.inr (Or.inl h)
          · exact Or.inl (hdigits.2 c hc)
  · rcases mem_exponentChars hn.exponent hc with h | h
    · exact Or.inl h
    · exact Or.inr (Or.inr h)

theorem mem_chars_of_mem_significand {c : Char} (hc : c ∈ n.significand) : c ∈ n.chars := by
  rw [chars_eq]
  refine List.mem_append_left _ (List.mem_append_right _ ?_)
  rcases List.mem_append.mp hc with hc | hc
  · exact List.mem_append_left _ hc
  · cases hf : n.fraction with
    | none => exact absurd (hf ▸ hc) List.not_mem_nil
    | some digits =>
      rw [hf] at hc
      exact List.mem_append_right _ (List.mem_cons_of_mem _ hc)

theorem mem_chars_of_mem_digits {e : Exponent} (he : e ∈ n.exponent) {c : Char}
    (hc : c ∈ e.digits) : c ∈ n.chars := by
  rw [chars_eq, Option.mem_def.mp he]
  exact List.mem_append_right _ (List.mem_cons_of_mem _ (List.mem_append_right _ hc))

theorem isBlank_of_mem_chars (hn : n.IsOver isDecimalDigit) : ∀ c ∈ n.chars, isBlank c = false := by
  intro c hc
  rcases mem_chars hn hc with hc | rfl | rfl | rfl | rfl | rfl
  · exact not_isBlank_of_isDecimalDigit hc
  all_goals rfl

end Numeral

namespace Text

theorem mem_of_mem_trimList {c : Char} (hc : c ∈ trimList cs) : c ∈ cs := by
  obtain ⟨before, after, hcs, -⟩ := exists_eq_append_trimList cs
  rw [hcs]
  exact List.mem_append_left _ (List.mem_append_right _ hc)

theorem trimList_eq_self (h : ∀ c ∈ cs, isBlank c = false) :
    trimList cs = cs := by
  cases cs with
  | nil => rfl
  | cons c cs =>
    have htrim : trimList ([] ++ (c :: cs) ++ []) = c :: cs :=
      trimList_append rfl rfl (List.cons_ne_nil c cs) (fun d hd => h d (List.mem_of_mem_head? hd))
        fun d hd => h d (List.mem_of_getLast? hd)
    rwa [List.nil_append, List.append_nil] at htrim

end Text

namespace Numeral

/-- A text holds a numeral when it is written as one between white space. -/
theorem ofText?_eq_some_iff {text : String} :
    ofText? text = some n ↔ n.IsOver isDecimalDigit ∧ n.chars = trimList text.toList :=
  read?_eq_some_iff

theorem ofText?_ofList_chars (hn : n.IsOver isDecimalDigit) :
    ofText? (String.ofList n.chars) = some n := by
  rw [ofText?_eq_some_iff, String.toList_ofList, trimList_eq_self (isBlank_of_mem_chars hn)]
  exact ⟨hn, rfl⟩

/-- A text is recognised as a numeral iff between white space it is one of the regular language. -/
theorem isNumeral_iff {text : String} :
    isNumeral text = true ↔ trimList text.toList ∈ texts isDecimalDigit := by
  rw [isNumeral, Option.isSome_iff_exists, mem_texts_iff]
  simp only [ofText?_eq_some_iff]

end Numeral

end ReactorSynth
