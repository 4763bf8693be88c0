import Mathlib.Data.Option.Basic
import ReactorSynth.Json.Print
import ReactorSynth.Json.Read

/-!
# Reading back written JSON

The text of a JSON value determines the value, if this holds nothing that has no text of its own:
decimals, which any text may stand for, and what is unreadable (`IsPlain`).

* `stringBody_escaped`: a string is read back from its escaped characters, whatever they are.
* `number_toString`: an integer is read back from its digits, in front of anything that does not go
  on with them (`EndsNumber`).
* `items_itemsChars`, `members_membersChars`: arrays and objects are read back if what they hold is.
  The reader descends two levels for each character at most, which pays for every value by the
  length of its text.
* **`read?_print`**: a plain value is read back from its text.
-/

namespace ReactorSynth.Json

open Text

/-- A reader that undoes a function on every item of a list undoes it on the list. -/
theorem mapM_map_eq_some {α β : Type} {read : β → Option α} {write : α → β} {l : List α}
    (h : ∀ a ∈ l, read (write a) = some a) : (l.map write).mapM read = some l := by
  induction l with
  | nil => rfl
  | cons a rest ih =>
    rw [List.forall_mem_cons] at h
    rw [List.map_cons, List.mapM_cons, h.1, ih h.2]
    rfl

/-! ## Strings -/

/-- A character code in front of what is read next. -/
def consCode (code : Nat) (read : Option (List Nat × List Char)) : Option (List Nat × List Char) :=
  read.map fun (codes, rest) => (code :: codes, rest)

theorem stringCodes_letter {letter : Char} {code : Nat} (hu : letter ≠ 'u')
    (hcode : escapeCode? letter = some code) (rest : List Char) :
    stringCodes ('\\' :: letter :: rest) = consCode code (stringCodes rest) := by
  rw [stringCodes, hcode]
  · cases stringCodes rest <;> rfl
  · rintro a b c d rest' rfl
    exact absurd rfl hu

theorem stringCodes_hex {a b c d : Char} {code : Nat} (hcode : hexValue4? a b c d = some code)
    (rest : List Char) :
    stringCodes ('\\' :: 'u' :: a :: b :: c :: d :: rest) = consCode code (stringCodes rest) := by
  rw [stringCodes, hcode]
  cases stringCodes rest <;> rfl

theorem stringCodes_self {c : Char} (hquote : c ≠ '"') (hslash : c ≠ '\\') (h : 0x20 ≤ c.toNat)
    (rest : List Char) : stringCodes (c :: rest) = consCode c.toNat (stringCodes rest) := by
  rw [stringCodes]
  · rw [(Option.guard_eq_some' ()).mpr h]
    cases stringCodes rest <;> rfl
  · exact hquote
  · rintro a b d e rest' rfl
    exact absurd rfl hslash
  · rintro letter rest' rfl
    exact absurd rfl hslash

theorem hexValue4?_control {n : Nat} (h : n < 0x20) :
    hexValue4? '0' '0' (hexDigit (n / 16)) (hexDigit (n % 16)) = some n := by
  have hhigh : hexValue? (hexDigit (n / 16)) = some (n / 16) := hexValue?_hexDigit (by omega)
  have hlow : hexValue? (hexDigit (n % 16)) = some (n % 16) := hexValue?_hexDigit (by omega)
  have hzero : hexValue? '0' = some 0 := by decide
  simp only [hexValue4?, hzero, hhigh, hlow, Option.bind_eq_bind, Option.bind_some,
    Option.pure_def, Option.some.injEq]
  omega

/-- Every way of writing a character is read as its code. -/
theorem stringCodes_escapeChar (c : Char) (rest : List Char) :
    stringCodes (escapeChar c ++ rest) = consCode c.toNat (stringCodes rest) := by
  unfold escapeChar
  split
  · subst_vars
    exact stringCodes_letter (by decide) rfl rest
  split
  · subst_vars
    exact stringCodes_letter (by decide) rfl rest
  split
  · exact stringCodes_self ‹_› ‹_› ‹_› rest
  split
  · subst_vars
    exact stringCodes_letter (by decide) rfl rest
  split
  · subst_vars
    exact stringCodes_letter (by decide) rfl rest
  split
  · subst_vars
    exact stringCodes_letter (by decide) rfl rest
  split
  next hcode =>
    rw [hcode]
    exact stringCodes_letter (by decide) rfl rest
  split
  next hcode =>
    rw [hcode]
    exact stringCodes_letter (by decide) rfl rest
  · exact stringCodes_hex (hexValue4?_control (by omega)) rest

/-- No character is half of a surrogate pair. -/
theorem not_surrogate (c : Char) :
    isHighSurrogate c.toNat = false ∧ isLowSurrogate c.toNat = false := by
  have h : c.toNat.isValidChar := c.valid
  simp only [Nat.isValidChar] at h
  simp only [isHighSurrogate, isLowSurrogate, Bool.and_eq_false_iff, decide_eq_false_iff_not]
  omega

theorem ofCodes?_map_toNat (cs : List Char) : ofCodes? (cs.map Char.toNat) = some cs := by
  induction cs with
  | nil => rfl
  | cons c cs ih =>
    obtain ⟨hhigh, hlow⟩ := not_surrogate c
    cases cs with
    | nil => simp [ofCodes?, hhigh, hlow]
    | cons next cs =>
      rw [List.map_cons, List.map_cons, ofCodes?, hhigh, hlow, ← List.map_cons, ih]
      simp

/-- A string is read back from its escaped characters. -/
theorem stringBody_escaped (s : String) (rest : List Char) :
    stringBody (s.toList.flatMap escapeChar ++ '"' :: rest) = some (some s, rest) := by
  have hcodes : ∀ cs : List Char, stringCodes (cs.flatMap escapeChar ++ '"' :: rest) =
      some (cs.map Char.toNat, rest) := by
    intro cs
    induction cs with
    | nil => rfl
    | cons c cs ih =>
      rw [List.flatMap_cons, List.append_assoc, stringCodes_escapeChar, ih]
      rfl
  simp only [stringBody, hcodes, Option.map_some, ofCodes?_map_toNat, String.ofList_toList]

/-! ## Numbers -/

/-- A text does not go on with a number that ends before it. -/
def EndsNumber (rest : List Char) : Prop :=
  ∀ c ∈ rest.head?, isAsciiDigit c = false ∧ c ≠ '.' ∧ c ≠ 'e' ∧ c ≠ 'E'

theorem endsNumber_nil : EndsNumber [] := by simp [EndsNumber]

theorem endsNumber_cons {c : Char} (h : isAsciiDigit c = false ∧ c ≠ '.' ∧ c ≠ 'e' ∧ c ≠ 'E')
    (rest : List Char) : EndsNumber (c :: rest) := by
  rintro _ ⟨rfl⟩
  exact h

theorem endsNumber_comma (rest : List Char) : EndsNumber (',' :: rest) :=
  endsNumber_cons (by decide) rest

theorem endsNumber_bracket (rest : List Char) : EndsNumber (']' :: rest) :=
  endsNumber_cons (by decide) rest

theorem endsNumber_brace (rest : List Char) : EndsNumber ('\x7d' :: rest) :=
  endsNumber_cons (by decide) rest

theorem digits?_append {digits rest : List Char} (hne : digits ≠ [])
    (hdigits : ∀ c ∈ digits, isAsciiDigit c = true) (hrest : EndsNumber rest) :
    digits? (digits ++ rest) = some (digits, rest) := by
  have htake : rest.takeWhile isAsciiDigit = [] := by
    cases rest with
    | nil => rfl
    | cons c rest => rw [List.takeWhile_cons_of_neg (by simp [(hrest c rfl).1])]
  have hdrop : rest.dropWhile isAsciiDigit = rest := by
    cases rest with
    | nil => rfl
    | cons c rest => rw [List.dropWhile_cons_of_neg (by simp [(hrest c rfl).1])]
  simp only [digits?, List.takeWhile_append_of_pos hdigits, List.dropWhile_append_of_pos hdigits,
    htake, hdrop, List.append_nil]
  simp [hne]

theorem fraction?_eq {rest : List Char} (h : EndsNumber rest) :
    fraction? rest = some ([], rest) := by
  rw [fraction?]
  rintro rest' rfl
  exact (h '.' rfl).2.1 rfl

theorem exponent?_eq {rest : List Char} (h : EndsNumber rest) :
    exponent? rest = some ([], rest) := by
  cases rest with
  | nil => rfl
  | cons c rest =>
    obtain ⟨-, -, he, hE⟩ := h c rfl
    simp [exponent?, he, hE]

theorem isAsciiDigit_toString (n : Nat) : ∀ c ∈ (toString n).toList, isAsciiDigit c = true := by
  intro c hc
  have hdigit : c.isDigit = true := by
    rw [Nat.toString_eq_repr, Nat.toList_repr] at hc
    exact Nat.isDigit_of_mem_toDigits (by decide) (by decide) hc
  exact hdigit

/-- Only zero is written with a zero in front. -/
theorem head?_toString {n : Nat} (h : n ≠ 0) : (toString n).toList.head? ≠ some '0' := by
  rw [Nat.toString_eq_repr, Nat.toList_repr]
  induction n using Nat.strongRecOn with
  | ind n ih =>
    by_cases hlt : n < 10
    · rw [Nat.toDigits_of_lt_base hlt]
      have hdigit : ∀ k < 10, k ≠ 0 → [k.digitChar].head? ≠ some '0' := by decide
      exact hdigit n hlt h
    · have hquotient := ih (n / 10) (by omega) (by omega)
      have hne : Nat.toDigits 10 (n / 10) ≠ [] := Nat.toDigits_ne_nil
      obtain ⟨c, digits, hdigits⟩ := List.exists_cons_of_ne_nil hne
      rw [hdigits] at hquotient
      rw [Nat.toDigits_of_base_le (by decide) (by omega), hdigits]
      exact hquotient

theorem unsigned_digits {negative : Bool} {digits rest : List Char} (hne : digits ≠ [])
    (hdigits : ∀ c ∈ digits, isAsciiDigit c = true)
    (hlead : digits.head? ≠ some '0' ∨ digits.length = 1)
    (hzero : negative = true → decimalValue digits ≠ 0) (hrest : EndsNumber rest) :
    unsigned negative (digits ++ rest) =
      some (integer (if negative then -(decimalValue digits : Int) else decimalValue digits),
        rest) := by
  have hlead : (digits.head? != some '0' || digits.length == 1) = true := by simpa using hlead
  have hinteger : negative = false ∨ ¬ decimalValue digits = 0 := by
    cases negative with
    | false => exact Or.inl rfl
    | true => exact Or.inr (hzero rfl)
  rw [unsigned, digits?_append hne hdigits hrest]
  change Option.bind (guard ((digits.head? != some '0' || digits.length == 1) = true)) _ = _
  rw [(Option.guard_eq_some' ()).mpr hlead]
  change (fraction? rest).bind _ = _
  rw [fraction?_eq hrest]
  change (exponent? rest).bind _ = _
  rw [exponent?_eq hrest]
  simp [hinteger]

theorem unsigned_toString {negative : Bool} {n : Nat} (h : negative = true → n ≠ 0)
    {rest : List Char} (hrest : EndsNumber rest) :
    unsigned negative ((toString n).toList ++ rest) =
      some (integer (if negative then -(n : Int) else n), rest) := by
  have hlead : (toString n).toList.head? ≠ some '0' ∨ (toString n).toList.length = 1 := by
    by_cases hn : n = 0
    · subst hn
      exact Or.inr (by decide)
    · exact Or.inl (head?_toString hn)
  have hvalue := decimalValue_toString n
  have hzero : negative = true → decimalValue (toString n).toList ≠ 0 := by rwa [hvalue]
  have hread := unsigned_digits (by simp) (isAsciiDigit_toString n) hlead hzero hrest
  rwa [hvalue] at hread

theorem exists_toString_nat_eq_cons (n : Nat) :
    ∃ c cs, (toString n).toList = c :: cs ∧ isAsciiDigit c = true := by
  have hne : (toString n).toList ≠ [] := by simp
  obtain ⟨c, digits, hdigits⟩ := List.exists_cons_of_ne_nil hne
  refine ⟨c, digits, hdigits, isAsciiDigit_toString n c ?_⟩
  rw [hdigits]
  exact List.mem_cons_self

theorem toString_negSucc (n : Nat) :
    (toString (Int.negSucc n)).toList = '-' :: (toString (n + 1)).toList := by
  simp [toString, Int.repr]

/-- An integer is read back from its text. -/
theorem number_toString (n : Int) {rest : List Char} (hrest : EndsNumber rest) :
    number ((toString n).toList ++ rest) = some (integer n, rest) := by
  cases n with
  | ofNat n =>
    change number ((toString n).toList ++ rest) = _
    rw [number]
    · exact unsigned_toString Bool.noConfusion hrest
    · intro cs h
      obtain ⟨c, digits, hdigits, hc⟩ := exists_toString_nat_eq_cons n
      rw [hdigits, List.cons_append, List.cons.injEq] at h
      rw [h.1] at hc
      exact absurd hc (by decide)
  | negSucc n =>
    rw [toString_negSucc]
    exact unsigned_toString (fun _ => Nat.succ_ne_zero n) hrest

/-! ## Values -/

/-- A value without decimals and without anything unreadable. -/
inductive IsPlain : Json → Prop where
  | null : IsPlain null
  | bool (b : Bool) : IsPlain (bool b)
  | integer (n : Int) : IsPlain (integer n)
  | string (s : String) : IsPlain (string s)
  | array {items : List Json} (h : ∀ item ∈ items, IsPlain item) : IsPlain (array items)
  | object {members : List (String × Json)} (h : ∀ member ∈ members, IsPlain member.2) :
      IsPlain (object members)

@[simp] theorem isPlain_null : null.IsPlain := .null

@[simp] theorem isPlain_bool (b : Bool) : (bool b).IsPlain := .bool b

@[simp] theorem isPlain_integer (n : Int) : (integer n).IsPlain := .integer n

@[simp] theorem isPlain_nat (n : Nat) : (nat n).IsPlain := .integer n

@[simp] theorem isPlain_string (s : String) : (string s).IsPlain := .string s

@[simp] theorem isPlain_array_iff {l : List Json} :
    (array l).IsPlain ↔ ∀ item ∈ l, item.IsPlain :=
  ⟨fun | .array h => h, .array⟩

@[simp] theorem isPlain_object_iff {l : List (String × Json)} :
    (object l).IsPlain ↔ ∀ member ∈ l, member.2.IsPlain :=
  ⟨fun | .object h => h, .object⟩

@[simp] theorem isPlain_ofOption_iff {α : Type} {encode : α → Json} {a : Option α} :
    (ofOption encode a).IsPlain ↔ ∀ b ∈ a, (encode b).IsPlain := by
  cases a <;> simp [ofOption]

@[simp] theorem isPlain_ofList_iff {α : Type} {encode : α → Json} {l : List α} :
    (ofList encode l).IsPlain ↔ ∀ a ∈ l, (encode a).IsPlain := by
  simp [ofList]

/-- A value is read back from its text, whatever follows it, given levels enough. -/
def ReadsBack (j : Json) : Prop :=
  ∀ {fuel : Nat} {rest : List Char}, 2 * (chars j).length ≤ fuel → EndsNumber rest →
    value fuel (chars j ++ rest) = some (j, rest)

theorem skipSpace_cons {c : Char} (h : isSpace c = false) (cs : List Char) :
    skipSpace (c :: cs) = c :: cs := List.dropWhile_cons_of_neg (by simp [h])

theorem value_string (fuel : Nat) (cs : List Char) :
    value (fuel + 1) ('"' :: cs) =
      (stringBody cs).map fun (s, rest) => ((s.map string).getD unreadable, rest) := rfl

theorem value_eq_number {c : Char} (h : c = '-' ∨ isAsciiDigit c = true) (fuel : Nat)
    (cs : List Char) : value (fuel + 1) (c :: cs) = number (c :: cs) := by
  rw [value]
  all_goals
    intro rest hcs
    rw [(List.cons.inj hcs).1] at h
    exact absurd h (by decide)

theorem exists_toString_eq_cons (n : Int) :
    ∃ c cs, (toString n).toList = c :: cs ∧ (c = '-' ∨ isAsciiDigit c = true) := by
  cases n with
  | ofNat n =>
    obtain ⟨c, digits, hdigits, hc⟩ := exists_toString_nat_eq_cons n
    exact ⟨c, digits, hdigits, Or.inr hc⟩
  | negSucc n => exact ⟨'-', _, toString_negSucc n, Or.inl rfl⟩

theorem chars_string (s : String) :
    chars (string s) = '"' :: (s.toList.flatMap escapeChar ++ ['"']) := rfl

theorem chars_array (l : List Json) : chars (array l) = '[' :: itemsChars l := rfl

theorem chars_object (l : List (String × Json)) : chars (object l) = '\x7b' :: membersChars l := rfl

/-- The text of a plain value starts with a character that is neither white space nor the end of
an array. -/
theorem IsPlain.exists_chars_eq_cons {j : Json} (h : j.IsPlain) :
    ∃ c cs, chars j = c :: cs ∧ isSpace c = false ∧ c ≠ ']' := by
  cases h with
  | null => exact ⟨_, _, rfl, by decide⟩
  | bool b => cases b <;> exact ⟨_, _, rfl, by decide⟩
  | integer n =>
    obtain ⟨c, cs, hchars, hc⟩ := exists_toString_eq_cons n
    refine ⟨c, cs, hchars, ?_, ?_⟩
    · cases hspace : isSpace c with
      | false => rfl
      | true =>
        simp only [isSpace, Bool.or_eq_true, beq_iff_eq] at hspace
        rcases hspace with ((rfl | rfl) | rfl) | rfl <;> exact absurd hc (by decide)
    · rintro rfl
      exact absurd hc (by decide)
  | string s => exact ⟨_, _, chars_string s, by decide⟩
  | array h => exact ⟨_, _, chars_array _, by decide⟩
  | object h => exact ⟨_, _, chars_object _, by decide⟩

theorem IsPlain.skipSpace_chars {j : Json} (h : j.IsPlain) (rest : List Char) :
    skipSpace (chars j ++ rest) = chars j ++ rest := by
  obtain ⟨c, cs, hchars, hspace, -⟩ := h.exists_chars_eq_cons
  rw [hchars]
  exact skipSpace_cons hspace _

theorem readsBack_integer (n : Int) : ReadsBack (integer n) := by
  intro fuel rest hfuel hrest
  obtain ⟨c, cs, hchars, hc⟩ := exists_toString_eq_cons n
  have htext : chars (integer n) = c :: cs := hchars
  rw [htext, List.length_cons] at hfuel
  obtain ⟨fuel, rfl⟩ : ∃ m, fuel = m + 1 := ⟨fuel - 1, by omega⟩
  have hread := number_toString n hrest
  rw [hchars, List.cons_append] at hread
  rw [htext, List.cons_append, value_eq_number hc]
  exact hread

theorem readsBack_string (s : String) : ReadsBack (string s) := by
  intro fuel rest hfuel hrest
  rw [chars_string, List.length_cons] at hfuel
  obtain ⟨fuel, rfl⟩ : ∃ m, fuel = m + 1 := ⟨fuel - 1, by omega⟩
  have hread := stringBody_escaped s rest
  rw [chars_string, List.cons_append, value_string, List.append_assoc, List.singleton_append, hread]
  rfl

/-! ## Arrays -/

theorem items_more {fuel : Nat} {cs rest : List Char} {item : Json}
    (h : value fuel (skipSpace cs) = some (item, ',' :: rest)) :
    items (fuel + 1) cs = (items fuel rest).map fun (more, rest) => (item :: more, rest) := by
  rw [items, h]
  change (items fuel rest).bind _ = _
  cases items fuel rest <;> rfl

theorem items_last {fuel : Nat} {cs rest : List Char} {item : Json}
    (h : value fuel (skipSpace cs) = some (item, ']' :: rest)) :
    items (fuel + 1) cs = some ([item], rest) := by
  rw [items, h]
  rfl

/-- The items of an array are read back if each of them is. -/
theorem items_itemsChars {l : List Json} (hne : l ≠ [])
    (h : ∀ item ∈ l, IsPlain item ∧ ReadsBack item) {fuel : Nat} {rest : List Char}
    (hfuel : 2 * (itemsChars l).length ≤ fuel) :
    items fuel (itemsChars l ++ rest) = some (l, rest) := by
  induction l generalizing fuel with
  | nil => exact absurd rfl hne
  | cons item more ih =>
    obtain ⟨hplain, hitem⟩ := h item List.mem_cons_self
    cases more with
    | nil =>
      rw [itemsChars, List.length_append, List.length_singleton] at hfuel
      obtain ⟨fuel, rfl⟩ : ∃ m, fuel = m + 1 := ⟨fuel - 1, by omega⟩
      rw [itemsChars, List.append_assoc, List.singleton_append]
      refine items_last ?_
      rw [hplain.skipSpace_chars]
      exact hitem (by omega) (endsNumber_bracket rest)
    | cons next more =>
      have hmem : ∀ j ∈ next :: more, IsPlain j ∧ ReadsBack j := fun j hj =>
        h j (List.mem_cons_of_mem item hj)
      have htext : itemsChars (item :: next :: more) =
          chars item ++ ',' :: itemsChars (next :: more) := rfl
      rw [htext, List.length_append, List.length_cons] at hfuel
      obtain ⟨fuel, rfl⟩ : ∃ m, fuel = m + 1 := ⟨fuel - 1, by omega⟩
      have hread : ∀ cs,
          value fuel (skipSpace (chars item ++ ',' :: cs)) = some (item, ',' :: cs) := by
        intro cs
        rw [hplain.skipSpace_chars]
        exact hitem (by omega) (endsNumber_comma cs)
      rw [htext, List.append_assoc, List.cons_append, items_more (hread _),
        ih (List.cons_ne_nil next more) hmem (by omega)]
      rfl

theorem exists_itemsChars_eq_cons {item : Json} (h : item.IsPlain) (more : List Json) :
    ∃ c cs, itemsChars (item :: more) = c :: cs ∧ isSpace c = false ∧ c ≠ ']' := by
  obtain ⟨c, cs, hchars, hc⟩ := h.exists_chars_eq_cons
  cases more with
  | nil => exact ⟨c, cs ++ [']'], by rw [itemsChars, hchars, List.cons_append], hc⟩
  | cons next more =>
    refine ⟨c, cs ++ ',' :: itemsChars (next :: more), ?_, hc⟩
    change chars item ++ _ = _
    rw [hchars, List.cons_append]

theorem value_array {c : Char} (hspace : isSpace c = false) (hc : c ≠ ']') (fuel : Nat)
    (cs : List Char) :
    value (fuel + 1) ('[' :: c :: cs) =
      (items fuel (c :: cs)).map fun (items, rest) => (array items, rest) := by
  rw [value, skipSpace_cons hspace]
  split
  next hcs => exact absurd (List.cons.inj hcs).1 hc
  next => rfl

theorem readsBack_array {l : List Json} (h : ∀ item ∈ l, IsPlain item ∧ ReadsBack item) :
    ReadsBack (array l) := by
  intro fuel rest hfuel hrest
  rw [chars_array, List.length_cons] at hfuel
  obtain ⟨fuel, rfl⟩ : ∃ m, fuel = m + 1 := ⟨fuel - 1, by omega⟩
  rw [chars_array, List.cons_append]
  cases l with
  | nil => rfl
  | cons item more =>
    obtain ⟨c, cs, hchars, hspace, hc⟩ :=
      exists_itemsChars_eq_cons (h item List.mem_cons_self).1 more
    have hread : items fuel (itemsChars (item :: more) ++ rest) = some (item :: more, rest) :=
      items_itemsChars (List.cons_ne_nil item more) h (by omega)
    rw [hchars, List.cons_append] at hread ⊢
    rw [value_array hspace hc, hread]
    rfl

/-! ## Objects -/

/-- A member as it is read. -/
def readMember (member : String × Json) : Option String × Json := (some member.1, member.2)

theorem members_more {fuel : Nat} {cs cs' rest : List Char} {key : Option String} {j : Json}
    (hkey : stringBody cs = some (key, ':' :: cs'))
    (h : value fuel (skipSpace cs') = some (j, ',' :: rest)) :
    members (fuel + 1) ('"' :: cs) =
      (members fuel rest).map fun (more, rest) => ((key, j) :: more, rest) := by
  have hquote : skipSpace ('"' :: cs) = '"' :: cs := skipSpace_cons rfl cs
  rw [members, hquote]
  change (stringBody cs).bind _ = _
  rw [hkey]
  change (value fuel (skipSpace cs')).bind _ = _
  rw [h]
  change (members fuel rest).bind _ = _
  cases members fuel rest <;> rfl

theorem members_last {fuel : Nat} {cs cs' rest : List Char} {key : Option String} {j : Json}
    (hkey : stringBody cs = some (key, ':' :: cs'))
    (h : value fuel (skipSpace cs') = some (j, '\x7d' :: rest)) :
    members (fuel + 1) ('"' :: cs) = some ([(key, j)], rest) := by
  have hquote : skipSpace ('"' :: cs) = '"' :: cs := skipSpace_cons rfl cs
  rw [members, hquote]
  change (stringBody cs).bind _ = _
  rw [hkey]
  change (value fuel (skipSpace cs')).bind _ = _
  rw [h]
  rfl

/-- The text of a member, in front of another text. -/
theorem memberChars_append (key : String) (j : Json) (rest : List Char) :
    memberChars (key, j) ++ rest =
      '"' :: (key.toList.flatMap escapeChar ++ '"' :: ':' :: (chars j ++ rest)) := by
  simp [memberChars, quoteChars]

theorem members_membersChars {l : List (String × Json)} (hne : l ≠ [])
    (h : ∀ member ∈ l, IsPlain member.2 ∧ ReadsBack member.2) {fuel : Nat} {rest : List Char}
    (hfuel : 2 * (membersChars l).length ≤ fuel) :
    members fuel (membersChars l ++ rest) = some (l.map readMember, rest) := by
  induction l generalizing fuel with
  | nil => exact absurd rfl hne
  | cons member more ih =>
    obtain ⟨key, j⟩ := member
    obtain ⟨hplain, hvalue⟩ : IsPlain j ∧ ReadsBack j := h (key, j) List.mem_cons_self
    have hlength : (chars j).length ≤ (memberChars (key, j)).length := by
      simp [memberChars]
      omega
    cases more with
    | nil =>
      rw [membersChars, List.length_append, List.length_singleton] at hfuel
      obtain ⟨fuel, rfl⟩ : ∃ m, fuel = m + 1 := ⟨fuel - 1, by omega⟩
      rw [membersChars, List.append_assoc, List.singleton_append, memberChars_append]
      refine members_last (stringBody_escaped key _) ?_
      rw [hplain.skipSpace_chars]
      exact hvalue (by omega) (endsNumber_brace rest)
    | cons next more =>
      have hmem : ∀ m ∈ next :: more, IsPlain m.2 ∧ ReadsBack m.2 := fun m hm =>
        h m (List.mem_cons_of_mem _ hm)
      have htext : membersChars ((key, j) :: next :: more) =
          memberChars (key, j) ++ ',' :: membersChars (next :: more) := rfl
      rw [htext, List.length_append, List.length_cons] at hfuel
      obtain ⟨fuel, rfl⟩ : ∃ m, fuel = m + 1 := ⟨fuel - 1, by omega⟩
      have hread : ∀ cs, value fuel (skipSpace (chars j ++ ',' :: cs)) = some (j, ',' :: cs) := by
        intro cs
        rw [hplain.skipSpace_chars]
        exact hvalue (by omega) (endsNumber_comma cs)
      rw [htext, List.append_assoc, List.cons_append, memberChars_append,
        members_more (stringBody_escaped key _) (hread _),
        ih (List.cons_ne_nil next more) hmem (by omega)]
      rfl

theorem ofMembers_map_readMember (l : List (String × Json)) :
    ofMembers (l.map readMember) = object l := by
  rw [ofMembers, mapM_map_eq_some]
  exact fun _ _ => rfl

theorem value_object (fuel : Nat) (cs : List Char) :
    value (fuel + 1) ('\x7b' :: '"' :: cs) =
      (members fuel ('"' :: cs)).map fun (members, rest) => (ofMembers members, rest) := rfl

theorem readsBack_object {l : List (String × Json)}
    (h : ∀ member ∈ l, IsPlain member.2 ∧ ReadsBack member.2) : ReadsBack (object l) := by
  intro fuel rest hfuel hrest
  rw [chars_object, List.length_cons] at hfuel
  obtain ⟨fuel, rfl⟩ : ∃ m, fuel = m + 1 := ⟨fuel - 1, by omega⟩
  rw [chars_object, List.cons_append]
  cases l with
  | nil => rfl
  | cons member more =>
    obtain ⟨key, j⟩ := member
    obtain ⟨cs, hchars⟩ : ∃ cs, membersChars ((key, j) :: more) = '"' :: cs := by
      cases more <;> exact ⟨_, rfl⟩
    have hread : members fuel (membersChars ((key, j) :: more) ++ rest) =
        some (((key, j) :: more).map readMember, rest) :=
      members_membersChars (List.cons_ne_nil _ more) h (by omega)
    rw [hchars, List.cons_append] at hread ⊢
    rw [value_object, hread, ← ofMembers_map_readMember]
    rfl

/-! ## Texts -/

/-- Every plain value is read back from its text. -/
theorem IsPlain.readsBack {j : Json} (h : j.IsPlain) : ReadsBack j := by
  induction h with
  | null =>
    intro fuel rest hfuel _
    change 8 ≤ fuel at hfuel
    obtain ⟨fuel, rfl⟩ : ∃ m, fuel = m + 1 := ⟨fuel - 1, by omega⟩
    rfl
  | bool b =>
    intro fuel rest hfuel _
    have hpos : 8 ≤ fuel := by cases b <;> exact Nat.le_trans (by decide) hfuel
    obtain ⟨fuel, rfl⟩ : ∃ m, fuel = m + 1 := ⟨fuel - 1, by omega⟩
    cases b <;> rfl
  | integer n => exact readsBack_integer n
  | string s => exact readsBack_string s
  | array h ih => exact readsBack_array fun item hitem => ⟨h item hitem, ih item hitem⟩
  | object h ih => exact readsBack_object fun member hm => ⟨h member hm, ih member hm⟩

/-- A plain value is read back from its text. -/
theorem read?_print {j : Json} (h : j.IsPlain) : read? j.print = some j := by
  have hskip := h.skipSpace_chars []
  have hread : value (2 * (chars j).length + 2) (chars j ++ []) = some (j, []) :=
    h.readsBack (by omega) endsNumber_nil
  rw [List.append_nil] at hskip hread
  rw [read?, print, String.toList_ofList, readList, hskip, hread]
  rfl

end ReactorSynth.Json
