import ReactorSynth.Proofs.NumeralValues
import ReactorSynth.Value

/-!
# Leading points

A numeral that starts with its point gets a zero in front of it. The texts that this happens to are
a regular language of their own (`Numeral.abbreviations`), which has all numerals with a leading
point and further texts, since it lets digits, exponent letters and signs follow in any order.

* `Numeral.spellLeadingZeroList_of_mem` and `Numeral.spellLeadingZeroList_of_not_mem`: the texts of
  this language get the zero, and no other text is changed.
* `Numeral.spellLeadingZeroList_chars`: the text of a numeral becomes that of the same numeral with
  a digit in front of its point.
* **`Numeral.recognised_and_spelled`**: which texts are numerals, which get the zero, and that a
  numeral stays one of the same value.
-/

namespace ReactorSynth

open Computability Text

namespace Numeral

variable {cs : List Char} {n : Numeral}

/-! ## Abbreviated texts -/

theorem isAbbreviated_iff : isAbbreviated cs = true ↔
    ∃ digit rest, cs = '.' :: digit :: rest ∧ isDecimalDigit digit = true ∧
      ∀ c ∈ rest, continuesAbbreviated c = true := by
  constructor
  · intro h
    unfold isAbbreviated at h
    split at h
    · rename_i c digit rest
      rw [Bool.and_eq_true, Bool.and_eq_true, beq_iff_eq] at h
      exact ⟨digit, rest, by rw [h.1.1], h.1.2, List.all_eq_true.mp h.2⟩
    · exact absurd h (by simp)
  · rintro ⟨digit, rest, rfl, hdigit, hrest⟩
    simp only [isAbbreviated, hdigit, List.all_eq_true.mpr hrest]
    rfl

theorem mem_abbreviations_iff : cs ∈ abbreviations ↔
    ∃ s rest, isAbbreviated rest = true ∧ Sign.chars s ++ rest = cs := by
  have hclass : ∀ c, (isDecimalDigit c || c == 'e' || c == 'E' || c == '+' || c == '-') =
      continuesAbbreviated c := fun c => by
    rw [continuesAbbreviated, Exponent.isLetter]
    simp only [Bool.or_assoc]
  unfold abbreviations
  simp only [isAbbreviated_iff, hclass]
  constructor
  · rintro ⟨_, ⟨_, ⟨_, hsign, _, ⟨c, hc, rfl⟩, rfl⟩, digits, hdigits, rfl⟩, rest, hrest, rfl⟩
    obtain ⟨s, rfl⟩ := Sign.mem_optional_signs_iff.mp hsign
    obtain ⟨hne, hdigits⟩ := mem_many_iff.mp hdigits
    obtain ⟨digit, digits, rfl⟩ := List.exists_cons_of_ne_nil hne
    rw [List.forall_mem_cons] at hdigits
    refine ⟨s, '.' :: digit :: (digits ++ rest), ⟨digit, digits ++ rest, rfl, hdigits.1, ?_⟩, ?_⟩
    · refine List.forall_mem_append.mpr ⟨fun d hd => ?_, mem_star_one_iff.mp hrest⟩
      simp [continuesAbbreviated, hdigits.2 d hd]
    · simp [beq_iff_eq.mp hc]
  · rintro ⟨s, _, ⟨digit, rest, rfl, hdigit, hrest⟩, rfl⟩
    have hpoint : Sign.chars s ++ ['.'] ∈ optional signs * point :=
      Language.append_mem_mul (Sign.mem_optional_signs_iff.mpr ⟨s, rfl⟩) ⟨'.', rfl, rfl⟩
    have hdigits : [digit] ∈ many isDecimalDigit :=
      mem_many_iff.mpr ⟨List.cons_ne_nil _ _, by simpa using hdigit⟩
    have hmem := Language.append_mem_mul (Language.append_mem_mul hpoint hdigits)
      (mem_star_one_iff.mpr hrest)
    simpa using hmem

theorem take_of_isAbbreviated {s : Option Sign} {rest : List Char}
    (h : isAbbreviated rest = true) : Sign.take (Sign.chars s ++ rest) = (s, rest) := by
  obtain ⟨digit, rest, rfl, -⟩ := isAbbreviated_iff.mp h
  exact Sign.take_append fun c hc => by rw [← Option.some.inj hc]; rfl

theorem mem_abbreviations_iff_take :
    cs ∈ abbreviations ↔ isAbbreviated (Sign.take cs).2 = true := by
  rw [mem_abbreviations_iff]
  constructor
  · rintro ⟨s, rest, hrest, rfl⟩
    rwa [take_of_isAbbreviated hrest]
  · exact fun h => ⟨(Sign.take cs).1, _, h, Sign.chars_append_take cs⟩

instance : Decidable (cs ∈ abbreviations) := decidable_of_iff _ mem_abbreviations_iff_take.symm

/-- An abbreviated text gets a zero behind its sign. -/
theorem spellLeadingZeroList_of_isAbbreviated {s : Option Sign} {rest : List Char}
    (h : isAbbreviated rest = true) :
    spellLeadingZeroList (Sign.chars s ++ rest) = Sign.chars s ++ '0' :: rest := by
  simp only [spellLeadingZeroList, take_of_isAbbreviated h, h, if_true]

theorem spellLeadingZeroList_of_mem (h : cs ∈ abbreviations) :
    ∃ before after, cs = before ++ '.' :: after ∧ '.' ∉ before ∧
      spellLeadingZeroList cs = before ++ '0' :: '.' :: after := by
  obtain ⟨s, rest, hrest, rfl⟩ := mem_abbreviations_iff.mp h
  rw [spellLeadingZeroList_of_isAbbreviated hrest]
  obtain ⟨digit, rest, rfl, -⟩ := isAbbreviated_iff.mp hrest
  refine ⟨Sign.chars s, digit :: rest, rfl, ?_, rfl⟩
  rcases s with - | - | - <;> decide

theorem spellLeadingZeroList_of_not_mem (h : cs ∉ abbreviations) :
    spellLeadingZeroList cs = cs := by
  rw [mem_abbreviations_iff_take] at h
  simp [spellLeadingZeroList, h]

/-- A text that has its zero spelled out is not abbreviated any more. -/
theorem spellLeadingZeroList_idem (cs : List Char) :
    spellLeadingZeroList (spellLeadingZeroList cs) = spellLeadingZeroList cs := by
  by_cases h : cs ∈ abbreviations
  · obtain ⟨s, rest, hrest, rfl⟩ := mem_abbreviations_iff.mp h
    rw [spellLeadingZeroList_of_isAbbreviated hrest]
    have htake : Sign.take (Sign.chars s ++ '0' :: rest) = (s, '0' :: rest) :=
      Sign.take_append fun c hc => by rw [← Option.some.inj hc]; rfl
    have hnot : isAbbreviated ('0' :: rest) = false := by
      cases rest <;> rfl
    simp [spellLeadingZeroList, htake, hnot]
  · rw [spellLeadingZeroList_of_not_mem h, spellLeadingZeroList_of_not_mem h]

/-! ## Numerals -/

/-- The numeral with a digit in front of its point: a zero if there is none. -/
def withLeadingZero (n : Numeral) : Numeral :=
  if n.whole = [] then { n with whole := ['0'] } else n

theorem whole_withLeadingZero (n : Numeral) : n.withLeadingZero.whole ≠ [] := by
  unfold withLeadingZero
  split_ifs with h
  · exact List.cons_ne_nil _ _
  · exact h

theorem IsOver.withLeadingZero {digit : Char → Bool} (h : n.IsOver digit)
    (hzero : digit '0' = true) : n.withLeadingZero.IsOver digit := by
  unfold Numeral.withLeadingZero
  split_ifs with hwhole
  · have hsignificand := h.significand
    simp only [Numeral.significand, hwhole, List.nil_append] at hsignificand
    exact ⟨List.cons_ne_nil _ _, List.forall_mem_cons.mpr ⟨hzero, hsignificand⟩, h.exponent⟩
  · exact h

theorem isAbbreviated_point {digits : List Char} (hn : n.IsOver isDecimalDigit)
    (hdigits : ∀ c ∈ digits, isDecimalDigit c = true) (hne : digits ≠ []) :
    isAbbreviated ('.' :: (digits ++ exponentChars n.exponent)) = true := by
  obtain ⟨digit, digits, rfl⟩ := List.exists_cons_of_ne_nil hne
  rw [List.forall_mem_cons] at hdigits
  refine isAbbreviated_iff.mpr ⟨digit, _, rfl, hdigits.1, List.forall_mem_append.mpr ⟨?_, ?_⟩⟩
  · intro c hc
    simp [continuesAbbreviated, hdigits.2 c hc]
  · intro c hc
    rcases mem_exponentChars hn.exponent hc with h | rfl | rfl | rfl | rfl
    · simp [continuesAbbreviated, h]
    all_goals rfl

/-- Spelling out the leading point of the text of a numeral writes the numeral with a digit in
front of its point. -/
theorem spellLeadingZeroList_chars (hn : n.IsOver isDecimalDigit) :
    spellLeadingZeroList n.chars = n.withLeadingZero.chars := by
  by_cases hwhole : n.whole = []
  · cases hf : n.fraction with
    | none => exact absurd (by simp [significand, hwhole, hf]) hn.ne_nil
    | some digits =>
      have hne : digits ≠ [] := by simpa [significand, hwhole, hf] using hn.ne_nil
      have hdigits : ∀ c ∈ digits, isDecimalDigit c = true := by
        simpa [significand, hwhole, hf] using hn.significand
      have hchars : n.chars =
          Sign.chars n.sign ++ ('.' :: (digits ++ exponentChars n.exponent)) := by
        simp [chars_eq, hwhole, hf, fractionChars]
      rw [hchars, spellLeadingZeroList_of_isAbbreviated (isAbbreviated_point hn hdigits hne)]
      simp [withLeadingZero, hwhole, chars_eq, hf, fractionChars]
  · obtain ⟨c, rest, hcons⟩ := List.exists_cons_of_ne_nil hwhole
    have hdigit : isDecimalDigit c = true :=
      hn.significand c (by rw [significand, hcons]; exact List.mem_cons_self)
    have hnot : ¬ isAbbreviated
        (n.whole ++ (fractionChars n.fraction ++ exponentChars n.exponent)) = true := by
      intro h
      obtain ⟨digit, behind, heq, -⟩ := isAbbreviated_iff.mp h
      rw [hcons, List.cons_append] at heq
      rw [(List.cons.inj heq).1] at hdigit
      exact absurd hdigit (by decide)
    simp [spellLeadingZeroList, take_chars hn, hnot, withLeadingZero, hwhole]

theorem value_withLeadingZero (n : Numeral) : n.withLeadingZero.value = n.value := by
  unfold withLeadingZero
  split_ifs with h
  · simp [value, h, decimalValue, Nat.ofDigitChars]
  · rfl

theorem isZero_withLeadingZero (n : Numeral) : n.withLeadingZero.isZero = n.isZero := by
  unfold withLeadingZero
  split_ifs with h
  · have hzero : isAsciiDigit '0' = true := rfl
    simp [isZero, isAscii, mantissa, digitCount, scale, significand, h, hzero, decimalValue,
      Nat.ofDigitChars]
  · rfl

theorem point_notMem_whole (hn : n.IsOver isDecimalDigit) : '.' ∉ Sign.chars n.sign ++ n.whole := by
  intro h
  rcases List.mem_append.mp h with h | h
  · rcases mem_signChars h with h | h <;> exact absurd h (by decide)
  · exact absurd (hn.significand '.' (List.mem_append_left _ h)) (by decide)

theorem point_notMem_exponentChars (hn : n.IsOver isDecimalDigit) :
    '.' ∉ exponentChars n.exponent := by
  intro h
  rcases mem_exponentChars hn.exponent h with h | h | h | h | h <;> exact absurd h (by decide)

/-- What stands in front of a point in the text of a numeral is its sign and its digits there. -/
theorem before_point (hn : n.IsOver isDecimalDigit) {before after : List Char}
    (h : n.chars = before ++ '.' :: after) : before = Sign.chars n.sign ++ n.whole := by
  have hparts : n.chars = (Sign.chars n.sign ++ n.whole) ++
      (fractionChars n.fraction ++ exponentChars n.exponent) := by
    simp only [chars_eq, List.append_assoc]
  rw [hparts] at h
  cases hf : n.fraction with
  | none =>
    rw [hf] at h
    have hmem : '.' ∈ (Sign.chars n.sign ++ n.whole) ++ exponentChars n.exponent :=
      h ▸ List.mem_append_right _ List.mem_cons_self
    rcases List.mem_append.mp hmem with hmem | hmem
    · exact absurd hmem (point_notMem_whole hn)
    · exact absurd hmem (point_notMem_exponentChars hn)
  | some digits =>
    rw [hf] at h
    have hbehind : '.' ∉ digits ++ exponentChars n.exponent := by
      intro hmem
      rcases List.mem_append.mp hmem with hmem | hmem
      · have hdigit := hn.significand '.' (by simp [significand, hf, hmem])
        exact absurd hdigit (by decide)
      · exact absurd hmem (point_notMem_exponentChars hn)
    exact ((List.append_cons_inj_of_notMem (point_notMem_whole hn) hbehind).mp h).1.symm

/-- Whatever stands in front of a point in the text of a numeral ends in a digit, if the numeral has
one in front of its point. -/
theorem getLast?_before_point (hn : n.IsOver isDecimalDigit) (hwhole : n.whole ≠ [])
    {before after : List Char} (h : n.chars = before ++ '.' :: after) :
    ∃ c, before.getLast? = some c ∧ isDecimalDigit c = true := by
  have hlast := List.getLast?_eq_some_getLast hwhole
  refine ⟨n.whole.getLast hwhole, ?_, ?_⟩
  · rw [before_point hn h, List.getLast?_append, hlast, Option.some_or]
  · exact hn.significand _ (List.mem_append_left _ (List.getLast_mem hwhole))

/-- **Numerals and their leading points.** A text is a numeral iff what stands between its white
space is one of the regular language. The abbreviated texts, and no others, get one zero in front of
their first point, and a second run changes nothing. A numeral without white space around it stays
one, has a digit in front of any point, denotes the same number if its digits are ASCII digits, and
counts as zero iff it did. -/
theorem recognised_and_spelled (text : String) :
    (isNumeral text = true ↔ trimList text.toList ∈ texts isDecimalDigit) ∧
    (text.toList ∈ abbreviations → ∃ before after, text.toList = before ++ '.' :: after ∧
      '.' ∉ before ∧ (spellLeadingZero text).toList = before ++ '0' :: '.' :: after) ∧
    (text.toList ∉ abbreviations → spellLeadingZero text = text) ∧
    spellLeadingZero (spellLeadingZero text) = spellLeadingZero text ∧
    (isNumeral text = true → trim text = text →
      isNumeral (spellLeadingZero text) = true ∧
      (∀ before after, (spellLeadingZero text).toList = before ++ '.' :: after →
        ∃ c, before.getLast? = some c ∧ isDecimalDigit c = true) ∧
      (AsciiDigits text.toList →
        ∃ v, Denotes text.toList v ∧ Denotes (spellLeadingZero text).toList v) ∧
      (Value.literal (spellLeadingZero text)).isZero = (Value.literal text).isZero) := by
  refine ⟨isNumeral_iff, fun h => ?_, fun h => ?_, ?_, fun hnumeral htrim => ?_⟩
  · rw [spellLeadingZero, String.toList_ofList]
    exact spellLeadingZeroList_of_mem h
  · rw [spellLeadingZero, spellLeadingZeroList_of_not_mem h, String.ofList_toList]
  · simp only [spellLeadingZero, String.toList_ofList, spellLeadingZeroList_idem]
  · obtain ⟨n, hread⟩ := Option.isSome_iff_exists.mp hnumeral
    obtain ⟨hn, hchars⟩ := ofText?_eq_some_iff.mp hread
    have hlist : trimList text.toList = text.toList := by
      rw [← String.toList_ofList (l := trimList text.toList)]
      exact congrArg String.toList htrim
    rw [hlist] at hchars
    have hover := hn.withLeadingZero (by decide)
    have hspelled : spellLeadingZero text = String.ofList n.withLeadingZero.chars := by
      rw [spellLeadingZero, ← hchars, spellLeadingZeroList_chars hn]
    have hread' := ofText?_ofList_chars hover
    rw [hspelled, String.toList_ofList]
    refine ⟨?_, fun before after => getLast?_before_point hover (whole_withLeadingZero n), ?_, ?_⟩
    · rw [isNumeral, hread', Option.isSome_some]
    · intro hdigits
      have hascii := hn.ascii (by rwa [hchars])
      exact ⟨n.value, ⟨n, hascii, hchars, rfl⟩,
        ⟨_, hascii.withLeadingZero (by decide), rfl, value_withLeadingZero n⟩⟩
    · simp only [Value.isZero, isZeroNumeral, hread, hread', Option.any_some,
        isZero_withLeadingZero]

/-- The point of an abbreviated numeral with a sign and an exponent is spelled out, and a point that
has its digit is left alone. -/
theorem recognised_and_spelled_minusQuarter :
    (isNumeral "-.25e3" = true ∧ trim "-.25e3" = "-.25e3" ∧ "-.25e3".toList ∈ abbreviations ∧
      spellLeadingZero "-.25e3" = "-0.25e3" ∧
      ∃ v, Denotes "-.25e3".toList v ∧ Denotes "-0.25e3".toList v) ∧
    "2.5".toList ∉ abbreviations ∧ spellLeadingZero "2.5" = "2.5" := by
  have hnumeral : isNumeral "-.25e3" = true := by decide +kernel
  have htrim : trim "-.25e3" = "-.25e3" := by decide +kernel
  have hascii : AsciiDigits "-.25e3".toList := by decide +kernel
  have hmem : "-.25e3".toList ∈ abbreviations := by decide +kernel
  have hspelled : spellLeadingZero "-.25e3" = "-0.25e3" := by decide +kernel
  have hnotMem : "2.5".toList ∉ abbreviations := by decide +kernel
  obtain ⟨-, -, -, -, hspell⟩ := recognised_and_spelled "-.25e3"
  obtain ⟨-, -, hdenotes, -⟩ := hspell hnumeral htrim
  refine ⟨⟨hnumeral, htrim, hmem, hspelled, hspelled ▸ hdenotes hascii⟩, hnotMem, ?_⟩
  exact (recognised_and_spelled "2.5").2.2.1 hnotMem

end Numeral

end ReactorSynth
