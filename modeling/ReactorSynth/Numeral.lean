import ReactorSynth.Text.Blank
import ReactorSynth.Text.DecimalDigit

/-!
# Numerals

A numeral is a plain number in text: an optional sign, digits with at most one point among them or
in front of them, and an optional exponent. Digits may come from any script. `Numeral.read?` is the
reader and `Numeral.chars` writes a numeral back.

The value of a numeral in ASCII digits is an exact decimal, `mantissa * 10 ^ scale`. It counts as
zero when the nearest 64-bit floating-point number is zero, that is when it is at most half of the
least positive one, `2 ^ -1075`. Digits of other scripts make a numeral but have no value, so such
a numeral is never zero.
-/

namespace ReactorSynth

open Text

/-! ## Grammar -/

/-- A sign as written. -/
inductive Sign where
  | plus
  | minus
  deriving DecidableEq, Repr

namespace Sign

/-- The character of a sign. -/
def char : Sign → Char
  | plus => '+'
  | minus => '-'

/-- The sign with a given character. -/
def ofChar? (c : Char) : Option Sign :=
  if c = '+' then some plus else if c = '-' then some minus else none

/-- An optional sign and the text after it. -/
def take : List Char → Option Sign × List Char
  | [] => (none, [])
  | c :: rest => match ofChar? c with
    | some sign => (some sign, rest)
    | none => (none, c :: rest)

/-- The characters of an optional sign. -/
def chars : Option Sign → List Char
  | none => []
  | some sign => [sign.char]

end Sign

/-- An exponent: its letter, an optional sign and its digits. -/
structure Exponent where
  letter : Char
  sign : Option Sign
  digits : List Char
  deriving DecidableEq, Repr

namespace Exponent

/-- Whether a character announces an exponent. -/
def isLetter (c : Char) : Bool := c == 'e' || c == 'E'

/-- The exponent that the whole text writes. -/
def read? : List Char → Option Exponent
  | [] => none
  | letter :: rest =>
    let (sign, digits) := Sign.take rest
    if isLetter letter && !digits.isEmpty && digits.all isDecimalDigit then
      some ⟨letter, sign, digits⟩
    else none

/-- The text of an exponent. -/
def chars (e : Exponent) : List Char := e.letter :: (Sign.chars e.sign ++ e.digits)

/-- The power of ten that an exponent in ASCII digits stands for. -/
def value (e : Exponent) : Int :=
  match e.sign with
  | some .minus => -(decimalValue e.digits : Int)
  | _ => decimalValue e.digits

end Exponent

/-- A numeral by its parts; `fraction` is present exactly when there is a point. -/
structure Numeral where
  sign : Option Sign
  whole : List Char
  fraction : Option (List Char)
  exponent : Option Exponent
  deriving DecidableEq, Repr

namespace Numeral

/-- The digits after an optional point, and the text after them. -/
def takeFraction : List Char → Option (List Char) × List Char
  | [] => (none, [])
  | c :: rest =>
    if c = '.' then (some (rest.takeWhile isDecimalDigit), rest.dropWhile isDecimalDigit)
    else (none, c :: rest)

/-- The numeral that the whole text writes: digits stand before the point or after it. -/
def read? (cs : List Char) : Option Numeral :=
  let (sign, unsigned) := Sign.take cs
  let whole := unsigned.takeWhile isDecimalDigit
  let (fraction, rest) := takeFraction (unsigned.dropWhile isDecimalDigit)
  if whole.isEmpty && (fraction.getD []).isEmpty then none
  else if rest.isEmpty then some ⟨sign, whole, fraction, none⟩
  else (Exponent.read? rest).map fun e => ⟨sign, whole, fraction, some e⟩

/-- The text of an optional fraction, with its point. -/
def fractionChars : Option (List Char) → List Char
  | none => []
  | some digits => '.' :: digits

/-- The text of a numeral. -/
def chars (n : Numeral) : List Char :=
  Sign.chars n.sign ++ n.whole ++ fractionChars n.fraction ++
    (n.exponent.map Exponent.chars).getD []

/-- The numeral that a text holds between white space. -/
def ofText? (text : String) : Option Numeral := read? (trimList text.toList)

/-! ## Value -/

/-- The digits of a numeral other than those of its exponent. -/
def significand (n : Numeral) : List Char := n.whole ++ n.fraction.getD []

/-- Whether all digits are ASCII digits, so that the numeral has a value. -/
def isAscii (n : Numeral) : Bool :=
  n.significand.all isAsciiDigit && n.exponent.all fun e => e.digits.all isAsciiDigit

/-- The digits of a numeral read as one number, without sign, point and exponent. -/
def mantissa (n : Numeral) : Nat := decimalValue n.significand

/-- The power of ten that the mantissa is multiplied by. -/
def scale (n : Numeral) : Int :=
  (n.exponent.map Exponent.value).getD 0 - (n.fraction.getD []).length

/-- The number of digits of the mantissa, leading zeros apart. -/
def digitCount (n : Numeral) : Nat := (n.significand.dropWhile (· == '0')).length

/-- Whether `mantissa * 10 ^ scale` is at most `2 ^ -1075`, for a mantissa of `digits` digits. The
position of its first digit settles all but the decade of the bound, where both sides are compared
as whole numbers. -/
def underflows (mantissa digits : Nat) (scale : Int) : Bool :=
  mantissa == 0 || digits + scale ≤ -324 ||
    (digits + scale == -323 && mantissa * Nat.pow 2 1075 ≤ Nat.pow 10 (-scale).toNat)

/-- Whether the numeral has a value and the nearest 64-bit floating-point number is zero. -/
def isZero (n : Numeral) : Bool := n.isAscii && underflows n.mantissa n.digitCount n.scale

end Numeral

/-! ## Texts that hold a numeral -/

/-- Whether a text is a numeral between white space. -/
def isNumeral (text : String) : Bool := (Numeral.ofText? text).isSome

/-- Whether a text is a numeral that counts as zero. -/
def isZeroNumeral (text : String) : Bool := (Numeral.ofText? text).any Numeral.isZero

/-! ## Leading points -/

/-- Whether a character may stand after the first digit of an abbreviated numeral. -/
def continuesAbbreviated (c : Char) : Bool :=
  isDecimalDigit c || Exponent.isLetter c || c == '+' || c == '-'

/-- Whether an unsigned text starts with a point and a digit and goes on with digits, exponent
letters and signs alone, in any order. -/
def isAbbreviated : List Char → Bool
  | c :: digit :: rest => c == '.' && isDecimalDigit digit && rest.all continuesAbbreviated
  | _ => false

/-- An abbreviated numeral with the zero in front of its point written out, after the sign if there
is one; any other text as it is. White space around a numeral leaves it as it is. -/
def spellLeadingZeroList (cs : List Char) : List Char :=
  let (sign, rest) := Sign.take cs
  if isAbbreviated rest then Sign.chars sign ++ '0' :: rest else cs

/-- An abbreviated numeral with the zero in front of its point written out; any other text as it
is. -/
def spellLeadingZero (text : String) : String := String.ofList (spellLeadingZeroList text.toList)

end ReactorSynth
