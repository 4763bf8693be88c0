import Mathlib.Algebra.Ring.Int.Defs
import ReactorSynth.Proofs.JsonText
import ReactorSynth.Proofs.NumeralTexts
import ReactorSynth.Target

/-!
# Texts of times

A time is written in four ways: as a call of a unit function, in the form of the source, and as a
chrono literal in either C++ target. Each has a reader here that is given the text alone. Names of
units are looked up as those of source texts are, and the length of a unit is what units are
multiples of (`TimeUnit.length`) and what chrono suffixes stand for (`chronoLengths`), not what the
program multiplies by.

* `Text.takeInteger?_append`: an integer is read back from its digits in front of a suffix.
* `TimeValue.ofLowered?_lowered` and `TimeValue.ofText?_text`: these two texts give back the
  magnitude and the unit.
* `Target.chronoNanos?_cppTime`: the chrono literal gives the length, and a zero is the same for
  every unit.
* **`TimeValue.readings`**: the length in nanoseconds is exact in 128 bits and is what all texts are
  read as, and different times have different texts, the zeros of C++ apart.
-/

namespace ReactorSynth

open Text

/-! ## Integers -/

namespace Text

/-- The number that a text of digits writes. -/
def natural? (cs : List Char) : Option Nat :=
  if !cs.isEmpty && cs.all isAsciiDigit then some (decimalValue cs) else none

/-- The number that a text of digits, with a minus sign in front or none, writes. -/
def integer? : List Char → Option Int
  | '-' :: digits => (natural? digits).map fun n => -(n : Int)
  | digits => (natural? digits).map fun n => (n : Int)

/-- Whether a character may stand in the text of an integer. -/
def isIntegerChar (c : Char) : Bool := c == '-' || isAsciiDigit c

/-- The integer that a text starts with, and the text behind it. -/
def takeInteger? (cs : List Char) : Option (Int × List Char) :=
  (integer? (cs.takeWhile isIntegerChar)).map fun m => (m, cs.dropWhile isIntegerChar)

theorem natural?_toString (n : Nat) : natural? (toString n).toList = some n := by
  have hdigits := List.all_eq_true.mpr (Json.isAsciiDigit_toString n)
  have hne : (toString n).toList ≠ [] := by simp
  rw [natural?, hdigits, List.isEmpty_eq_false_iff.mpr hne, decimalValue_toString]
  rfl

theorem integer?_toString (n : Int) : integer? (toString n).toList = some n := by
  cases n with
  | ofNat n =>
    have hread := natural?_toString n
    obtain ⟨c, cs, hcs, hc⟩ := Json.exists_toString_nat_eq_cons n
    have hsign : c ≠ '-' := by
      rintro rfl
      exact absurd hc (by decide)
    change integer? (toString n).toList = _
    rw [hcs] at hread ⊢
    simp [integer?, hsign, hread]
  | negSucc n =>
    rw [Json.toString_negSucc, integer?, natural?_toString]
    rfl

theorem isIntegerChar_toString (n : Int) : ∀ c ∈ (toString n).toList, isIntegerChar c = true := by
  intro c hc
  cases n with
  | ofNat n => simp [isIntegerChar, Json.isAsciiDigit_toString n c hc]
  | negSucc n =>
    rw [Json.toString_negSucc] at hc
    rcases List.mem_cons.mp hc with rfl | hc
    · rfl
    · simp [isIntegerChar, Json.isAsciiDigit_toString (n + 1) c hc]

/-- An integer is read back from its text in front of what does not go on with it. -/
theorem takeInteger?_append (n : Int) {rest : List Char}
    (hrest : ∀ c ∈ rest.head?, isIntegerChar c = false) :
    takeInteger? ((toString n).toList ++ rest) = some (n, rest) := by
  obtain ⟨htake, hdrop⟩ := span_append (isIntegerChar_toString n) hrest
  rw [takeInteger?, htake, hdrop, integer?_toString, Option.map_some]

theorem takeInteger?_append_cons (n : Int) {c : Char} (hc : isIntegerChar c = false)
    (rest : List Char) : takeInteger? ((toString n).toList ++ c :: rest) = some (n, c :: rest) :=
  takeInteger?_append n fun d hd => by rwa [← Option.some.inj hd]

end Text

/-! ## Lengths -/

/-- The length of a unit in nanoseconds; a bare number counts nanoseconds. -/
def TimeUnit.length : TimeUnit → Int
  | none | nsec => 1
  | usec => 1000
  | msec => 1000 * 1000
  | sec => 1000 * 1000 * 1000
  | min => 60 * (1000 * 1000 * 1000)
  | hour => 60 * 60 * (1000 * 1000 * 1000)
  | day => 24 * 60 * 60 * (1000 * 1000 * 1000)
  | week => 7 * 24 * 60 * 60 * (1000 * 1000 * 1000)

theorem TimeUnit.nanos_eq_length (u : TimeUnit) : u.nanos = u.length := by
  cases u <;> decide

/-- A number of units, of any size. -/
structure Quantity where
  count : Int
  unit : TimeUnit
  deriving DecidableEq, Repr

/-- The length of so many units, in nanoseconds. -/
def Quantity.length (q : Quantity) : Int := q.count * q.unit.length

namespace TimeValue

variable {t t' : TimeValue}

/-- The magnitude and the unit of a time. -/
def quantity (t : TimeValue) : Quantity := ⟨t.magnitude.toInt, t.unit⟩

theorem quantity_inj : t.quantity = t'.quantity ↔ t = t' := by
  constructor
  · intro h
    obtain ⟨m, u⟩ := t
    obtain ⟨m', u'⟩ := t'
    obtain ⟨hm, hu⟩ := Quantity.mk.inj h
    exact (mk.injEq m u m' u').mpr ⟨Int64.toInt_inj.mp hm, hu⟩
  · rintro rfl
    rfl

/-- A text that gives back the magnitude and the unit tells times apart. -/
theorem write_inj {write : TimeValue → String} {read : List Char → Option Quantity}
    (h : ∀ t, read (write t).toList = some t.quantity) : write t = write t' ↔ t = t' := by
  refine ⟨fun heq => quantity_inj.mp (Option.some.inj ?_), congrArg write⟩
  rw [← h, ← h, heq]

theorem length_quantity (t : TimeValue) : t.quantity.length = t.toNanos := by
  rw [Quantity.length, toNanos, TimeUnit.nanos_eq_length]
  rfl

theorem toNanos_bounds (t : TimeValue) : -2 ^ 127 ≤ t.toNanos ∧ t.toNanos < 2 ^ 127 := by
  have hle := Int64.le_toInt t.magnitude
  have hlt := Int64.toInt_lt t.magnitude
  unfold toNanos
  cases t.unit <;> simp only [TimeUnit.nanos] <;> omega

/-- The product in 128 bits does not wrap. -/
theorem toNanos_exact (t : TimeValue) :
    (BitVec.ofInt 128 t.magnitude.toInt * BitVec.ofInt 128 t.unit.nanos).toInt = t.toNanos := by
  obtain ⟨hle, hlt⟩ := t.toNanos_bounds
  unfold toNanos at hle hlt ⊢
  rw [← BitVec.ofInt_mul, BitVec.toInt_ofInt]
  exact Int.bmod_eq_of_le (by simpa using hle) (by simpa using hlt)

/-! ## Calls of unit functions -/

/-- The unit of a unit function, whose name is that of a unit in capitals. -/
def unitOfFunction? (name : List Char) : Option TimeUnit :=
  if name.all Char.isUpper then TimeUnit.ofName? (String.ofList (name.map Char.toLower)) else none

/-- The quantity that a text writes as a unit function with an integer, or as an integer alone. -/
def ofLowered? (cs : List Char) : Option Quantity :=
  match cs.dropWhile (· != '(') with
  | [] => (integer? cs).map (⟨·, .none⟩)
  | _ :: argument =>
    match unitOfFunction? (cs.takeWhile (· != '(')), takeInteger? argument with
    | some unit, some (m, [')']) => some ⟨m, unit⟩
    | _, _ => none

theorem unitOfFunction?_functionName {u : TimeUnit} (hu : u ≠ .none) :
    unitOfFunction? u.functionName.toList = some u := by
  cases u with
  | none => exact absurd rfl hu
  | nsec | usec | msec | sec | min | hour | day | week => decide +kernel

theorem ofLowered?_call (m : Int) {u : TimeUnit} (hu : u ≠ .none) :
    ofLowered? (u.functionName.toList ++ '(' :: ((toString m).toList ++ [')'])) = some ⟨m, u⟩ := by
  have hname : u.functionName.toList.all (· != '(') = true := by
    cases u <;> decide +kernel
  obtain ⟨htake, hdrop⟩ := span_append (b := '(' :: ((toString m).toList ++ [')']))
    (List.all_eq_true.mp hname) (by simp)
  have harg := takeInteger?_append_cons m (c := ')') rfl []
  rw [ofLowered?, hdrop, htake, unitOfFunction?_functionName hu]
  simp only [harg]

theorem lowered_of_unit (hu : t.unit ≠ .none) :
    t.lowered = t.unit.functionName ++ "(" ++ t.magnitudeText ++ ")" := by
  unfold lowered
  split
  · exact absurd ‹_› hu
  · rfl

theorem ofLowered?_lowered (t : TimeValue) : ofLowered? t.lowered.toList = some t.quantity := by
  by_cases hu : t.unit = .none
  · have hbare : (toString t.magnitude.toInt).toList.dropWhile (· != '(') = [] := by
      refine List.dropWhile_eq_nil_iff.mpr fun c hc => bne_iff_ne.mpr ?_
      rintro rfl
      exact absurd (isIntegerChar_toString t.magnitude.toInt _ hc) (by decide)
    have hlowered : t.lowered = toString t.magnitude.toInt := by rw [lowered, hu, magnitudeText]
    rw [hlowered, ofLowered?, hbare, integer?_toString, quantity, hu, Option.map_some]
  · have hchars : t.lowered.toList =
        t.unit.functionName.toList ++ '(' :: ((toString t.magnitude.toInt).toList ++ [')']) := by
      rw [lowered_of_unit hu, magnitudeText]
      simp
    rw [hchars, ofLowered?_call _ hu, quantity]

example : lowered ⟨-100, .msec⟩ = "MSEC(-100)" ∧
    ofLowered? "MSEC(-100)".toList = some ⟨-100, .msec⟩ ∧
    ofLowered? "100 msec".toList = none := by decide +kernel

/-! ## Source texts -/

/-- The quantity that a text writes as an integer with a unit behind a space, or none. -/
def ofText? (cs : List Char) : Option Quantity :=
  match takeInteger? cs with
  | some (m, []) => some ⟨m, .none⟩
  | some (m, ' ' :: name) => (TimeUnit.ofName? (String.ofList name)).map (⟨m, ·⟩)
  | _ => none

theorem text_of_unit (hu : t.unit ≠ .none) :
    t.text = t.magnitudeText ++ " " ++ t.unit.canonicalName := by
  unfold text
  split
  · exact absurd ‹_› hu
  · rfl

theorem ofText?_text (t : TimeValue) : ofText? t.text.toList = some t.quantity := by
  by_cases hu : t.unit = .none
  · have hread := @takeInteger?_append t.magnitude.toInt [] (by simp)
    have htext : t.text.toList = (toString t.magnitude.toInt).toList ++ [] := by
      rw [text, hu, magnitudeText, List.append_nil]
    rw [ofText?, htext, hread, quantity, hu]
  · have hchars : t.text.toList =
        (toString t.magnitude.toInt).toList ++ ' ' :: t.unit.canonicalName.toList := by
      rw [text_of_unit hu, magnitudeText]
      simp
    have hread :=
      takeInteger?_append_cons t.magnitude.toInt (c := ' ') rfl t.unit.canonicalName.toList
    have hname : TimeUnit.ofName? t.unit.canonicalName = some t.unit := by
      cases h : t.unit <;> first | exact absurd h hu | rfl
    rw [ofText?, hchars, hread]
    simp only [String.ofList_toList, hname]
    rfl

end TimeValue

/-! ## Chrono literals -/

namespace Target

open TimeValue

/-- The lengths that the suffixes of chrono literals stand for, in nanoseconds; a number without one
counts nanoseconds. -/
def chronoLengths : List (String × Int) :=
  [("", 1), ("ns", 1), ("us", 1000), ("ms", 1000000), ("s", 1000000000), ("min", 60000000000),
   ("h", 3600000000000), ("d", 86400000000000)]

/-- The length of one unit of a chrono literal, with the factor behind it if there is one. -/
def chronoLength? (suffix : List Char) : Option Int := do
  let length ← chronoLengths.lookup (String.ofList (suffix.takeWhile (· != '*')))
  match suffix.dropWhile (· != '*') with
  | [] => some length
  | _ :: factor => (integer? factor).map (length * ·)

/-- The length that a text writes as a chrono literal or as the zero of the library. -/
def chronoNanos? (cs : List Char) : Option Int :=
  match takeInteger? cs with
  | some (m, suffix) => (chronoLength? suffix).map (m * ·)
  | none => if cs = "reactor::Duration::zero()".toList then some 0 else none

theorem chronoLength?_chronoSuffix (u : TimeUnit) :
    chronoLength? (chronoSuffix u).toList = some u.length := by
  cases u <;> rfl

theorem chronoSuffix_inj {u u' : TimeUnit} (h : chronoSuffix u = chronoSuffix u') : u = u' := by
  cases u <;> cases u' <;> first | rfl | exact absurd h (by decide)

theorem takeInteger?_literal (m : Int) (u : TimeUnit) :
    takeInteger? ((toString m).toList ++ (chronoSuffix u).toList) =
      some (m, (chronoSuffix u).toList) :=
  takeInteger?_append m (by cases u <;> rintro _ ⟨⟩ <;> rfl)

theorem cppTime_of_isZero {t : TimeValue} (h : t.isZero = true) :
    cppTime t = "reactor::Duration::zero()" := by
  rw [cppTime, if_pos h]

theorem takeInteger?_cppTime {t : TimeValue} (h : t.isZero = false) :
    takeInteger? (cppTime t).toList = some (t.magnitude.toInt, (chronoSuffix t.unit).toList) := by
  rw [cppTime, h, if_neg Bool.false_ne_true, magnitudeText, String.toList_append]
  exact takeInteger?_literal _ _

theorem chronoNanos?_cppTime (t : TimeValue) :
    chronoNanos? (cppTime t).toList = some t.toNanos := by
  cases h : t.isZero with
  | true =>
    have hmagnitude : t.magnitude = 0 := beq_iff_eq.mp h
    rw [cppTime_of_isZero h, toNanos, hmagnitude, Int64.toInt_zero, Int.zero_mul]
    rfl
  | false =>
    rw [chronoNanos?, takeInteger?_cppTime h]
    simp only [chronoLength?_chronoSuffix, Option.map_some, toNanos, TimeUnit.nanos_eq_length]

theorem cppTime_ne_of_isZero {t t' : TimeValue} (ht : t.isZero = true) (ht' : t'.isZero = false) :
    cppTime t ≠ cppTime t' := by
  intro h
  have hnone : takeInteger? (cppTime t).toList = none := by
    rw [cppTime_of_isZero ht]
    rfl
  rw [h, takeInteger?_cppTime ht'] at hnone
  exact Option.some_ne_none _ hnone

/-- The C++ text tells times apart, all zeros being one. -/
theorem cppTime_inj {t t' : TimeValue} :
    cppTime t = cppTime t' ↔ t = t' ∨ t.isZero = true ∧ t'.isZero = true := by
  constructor
  · intro h
    cases ht : t.isZero <;> cases ht' : t'.isZero
    · have hread := takeInteger?_cppTime ht
      rw [h, takeInteger?_cppTime ht'] at hread
      obtain ⟨hm, hsuffix⟩ := Prod.mk.inj (Option.some.inj hread)
      refine Or.inl (quantity_inj.mp ?_)
      rw [quantity, quantity, hm, chronoSuffix_inj (String.toList_inj.mp hsuffix)]
    · exact absurd h.symm (cppTime_ne_of_isZero ht' ht)
    · exact absurd h (cppTime_ne_of_isZero ht ht')
    · exact Or.inr ⟨rfl, rfl⟩
  · rintro (rfl | ⟨ht, ht'⟩)
    · rfl
    · rw [cppTime_of_isZero ht, cppTime_of_isZero ht']

/-- A week is read as seven days, and without a suffix nanoseconds are counted. -/
example : chronoNanos? "-5d*7".toList = some (-5 * TimeUnit.length .week) ∧
    chronoNanos? "30".toList = some 30 := by decide +kernel

end Target

/-! ## All texts of a time -/

/-- **All texts of a time are read as its length.** The length in nanoseconds is the product in 128
bits, which does not wrap. The calls of unit functions, the source texts and the chrono literals of
both C++ targets are read as that length. Times are told apart by their calls and by their source
texts, and by their chrono literals but for the zeros. -/
theorem TimeValue.readings (t : TimeValue) :
    (-2 ^ 127 ≤ t.toNanos ∧ t.toNanos < 2 ^ 127 ∧
      (BitVec.ofInt 128 t.magnitude.toInt * BitVec.ofInt 128 t.unit.nanos).toInt = t.toNanos) ∧
    (ofLowered? t.lowered.toList).map Quantity.length = some t.toNanos ∧
    (ofText? t.text.toList).map Quantity.length = some t.toNanos ∧
    Target.chronoNanos? (Target.cpp.timeExpr t).toList = some t.toNanos ∧
    Target.chronoNanos? (Target.cppOuter.timeExpr t).toList = some t.toNanos ∧
    ∀ t' : TimeValue,
      (t.lowered = t'.lowered ↔ t = t') ∧ (t.text = t'.text ↔ t = t') ∧
      (Target.cpp.timeExpr t = Target.cpp.timeExpr t' ↔
        t = t' ∨ t.isZero = true ∧ t'.isZero = true) ∧
      (Target.cppOuter.timeExpr t = Target.cppOuter.timeExpr t' ↔
        t = t' ∨ t.isZero = true ∧ t'.isZero = true) := by
  refine ⟨⟨t.toNanos_bounds.1, t.toNanos_bounds.2, t.toNanos_exact⟩, ?_, ?_,
    Target.chronoNanos?_cppTime t, Target.chronoNanos?_cppTime t, fun t' =>
      ⟨write_inj ofLowered?_lowered, write_inj ofText?_text, Target.cppTime_inj,
        Target.cppTime_inj⟩⟩
  · rw [ofLowered?_lowered, Option.map_some, length_quantity]
  · rw [ofText?_text, Option.map_some, length_quantity]

end ReactorSynth
