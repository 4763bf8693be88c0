import ReactorSynth.Json
import ReactorSynth.Text.DecimalDigit
import ReactorSynth.Text.Hexadecimal

/-!
# Reading JSON

A reader for JSON texts. It accepts exactly the JSON grammar: the four white-space characters of
JSON and no others, no leading zeros, no control character inside a string, nothing but white space
after the value. An escape of an unpaired surrogate keeps to the grammar, so it makes the string
that holds it, or the object whose key it is in, `unreadable` instead of refusing the text.
-/

namespace ReactorSynth.Json

open Text

/-- Whether a character separates JSON tokens. -/
def isSpace (c : Char) : Bool := c == ' ' || c == '\t' || c == '\n' || c == '\r'

/-- The text after its leading white space. -/
def skipSpace (cs : List Char) : List Char := cs.dropWhile isSpace

/-! ## Strings -/

/-- The number that four hexadecimal digits write. -/
def hexValue4? (a b c d : Char) : Option Nat := do
  let a ← hexValue? a
  let b ← hexValue? b
  let c ← hexValue? c
  let d ← hexValue? d
  return ((a * 16 + b) * 16 + c) * 16 + d

/-- The code of the character that an escape letter stands for. -/
def escapeCode? (c : Char) : Option Nat :=
  if c = '"' || c = '\\' || c = '/' then some c.toNat
  else if c = 'b' then some 8
  else if c = 'f' then some 12
  else if c = 'n' then some 10
  else if c = 'r' then some 13
  else if c = 't' then some 9
  else none

/-- The codes a string holds up to its closing quotation mark, and the text after it. An escape in
hexadecimal may give one half of a surrogate pair. -/
def stringCodes : List Char → Option (List Nat × List Char)
  | [] => none
  | '"' :: rest => some ([], rest)
  | '\\' :: 'u' :: a :: b :: c :: d :: rest => do
    let code ← hexValue4? a b c d
    let (codes, rest) ← stringCodes rest
    return (code :: codes, rest)
  | '\\' :: letter :: rest => do
    let code ← escapeCode? letter
    let (codes, rest) ← stringCodes rest
    return (code :: codes, rest)
  | c :: rest => do
    guard (0x20 ≤ c.toNat)
    let (codes, rest) ← stringCodes rest
    return (c.toNat :: codes, rest)

/-- Whether a code is the first half of a surrogate pair. -/
def isHighSurrogate (code : Nat) : Bool := 0xD800 ≤ code && code < 0xDC00

/-- Whether a code is the second half of a surrogate pair. -/
def isLowSurrogate (code : Nat) : Bool := 0xDC00 ≤ code && code < 0xE000

/-- The code point of a surrogate pair. -/
def pairCode (high low : Nat) : Nat := 0x10000 + (high - 0xD800) * 0x400 + (low - 0xDC00)

/-- The characters of a list of codes, if its surrogates come in pairs. -/
def ofCodes? : List Nat → Option (List Char)
  | [] => some []
  | [code] =>
    if isHighSurrogate code || isLowSurrogate code then none else some [Char.ofNat code]
  | code :: next :: rest =>
    if isHighSurrogate code then
      if isLowSurrogate next then (ofCodes? rest).map (Char.ofNat (pairCode code next) :: ·)
      else none
    else if isLowSurrogate code then none
    else (ofCodes? (next :: rest)).map (Char.ofNat code :: ·)

/-- The string after an opening quotation mark, and the text after the closing one. The string is
missing if it holds an unpaired surrogate. -/
def stringBody (cs : List Char) : Option (Option String × List Char) :=
  (stringCodes cs).map fun (codes, rest) => ((ofCodes? codes).map String.ofList, rest)

/-! ## Numbers -/

/-- A non-empty run of digits, and the text after it. -/
def digits? (cs : List Char) : Option (List Char × List Char) :=
  let digits := cs.takeWhile isAsciiDigit
  if digits.isEmpty then none else some (digits, cs.dropWhile isAsciiDigit)

/-- An optional fraction with its point, and the text after it. -/
def fraction? : List Char → Option (List Char × List Char)
  | '.' :: rest => (digits? rest).map fun (digits, rest) => ('.' :: digits, rest)
  | cs => some ([], cs)

/-- The sign of an exponent, if any, and the text after it. -/
def exponentSign : List Char → List Char × List Char
  | '+' :: rest => (['+'], rest)
  | '-' :: rest => (['-'], rest)
  | cs => ([], cs)

/-- An optional exponent with its letter, and the text after it. -/
def exponent? : List Char → Option (List Char × List Char)
  | [] => some ([], [])
  | c :: rest =>
    if c = 'e' || c = 'E' then
      let (sign, rest) := exponentSign rest
      (digits? rest).map fun (digits, rest) => (c :: (sign ++ digits), rest)
    else some ([], c :: rest)

/-- A number without its minus sign, and the text after it. The digits before the point start with
zero only if they are that zero alone. Minus zero is no integer. -/
def unsigned (negative : Bool) (cs : List Char) : Option (Json × List Char) := do
  let (whole, rest) ← digits? cs
  guard (whole.head? != some '0' || whole.length == 1)
  let (fraction, rest) ← fraction? rest
  let (exponent, rest) ← exponent? rest
  let sign := if negative then ['-'] else []
  let n := decimalValue whole
  if fraction.isEmpty && exponent.isEmpty && !(negative && n == 0) then
    return (integer (if negative then -(n : Int) else n), rest)
  else
    return (decimal (String.ofList (sign ++ whole ++ fraction ++ exponent)), rest)

/-- A number, and the text after it. -/
def number : List Char → Option (Json × List Char)
  | '-' :: rest => unsigned true rest
  | cs => unsigned false cs

/-! ## Values -/

/-- An object of the given members, if all keys can be read. -/
def ofMembers (members : List (Option String × Json)) : Json :=
  match members.mapM fun (key, value) => key.map (·, value) with
  | some members => object members
  | none => unreadable

mutual

/-- The value a text starts with, and the text after it. -/
def value : Nat → List Char → Option (Json × List Char)
  | 0, _ => none
  | fuel + 1, cs =>
    match cs with
    | 'n' :: 'u' :: 'l' :: 'l' :: rest => some (null, rest)
    | 't' :: 'r' :: 'u' :: 'e' :: rest => some (bool true, rest)
    | 'f' :: 'a' :: 'l' :: 's' :: 'e' :: rest => some (bool false, rest)
    | '"' :: rest => (stringBody rest).map fun (s, rest) => ((s.map string).getD unreadable, rest)
    | '[' :: rest =>
      match skipSpace rest with
      | ']' :: rest => some (array [], rest)
      | rest => (items fuel rest).map fun (items, rest) => (array items, rest)
    | '\x7b' :: rest =>
      match skipSpace rest with
      | '\x7d' :: rest => some (object [], rest)
      | rest => (members fuel rest).map fun (members, rest) => (ofMembers members, rest)
    | cs => number cs

/-- The items of an array up to its closing bracket, at least one, and the text after it. -/
def items : Nat → List Char → Option (List Json × List Char)
  | 0, _ => none
  | fuel + 1, cs => do
    let (item, rest) ← value fuel (skipSpace cs)
    match skipSpace rest with
    | ',' :: rest =>
      let (more, rest) ← items fuel rest
      return (item :: more, rest)
    | ']' :: rest => return ([item], rest)
    | _ => none

/-- The members of an object up to its closing brace, at least one, and the text after it. A key
that cannot be read is missing. -/
def members : Nat → List Char → Option (List (Option String × Json) × List Char)
  | 0, _ => none
  | fuel + 1, cs =>
    match skipSpace cs with
    | '"' :: rest => do
      let (key, rest) ← stringBody rest
      match skipSpace rest with
      | ':' :: rest =>
        let (value, rest) ← value fuel (skipSpace rest)
        match skipSpace rest with
        | ',' :: rest =>
          let (more, rest) ← members fuel rest
          return ((key, value) :: more, rest)
        | '\x7d' :: rest => return ([(key, value)], rest)
        | _ => none
      | _ => none
    | _ => none

end

/-- The value that a whole text holds. No step of the reader passes over more than two levels of
its recursion per character, so twice the length bounds it. -/
def readList (cs : List Char) : Option Json := do
  let (value, rest) ← value (2 * cs.length + 2) (skipSpace cs)
  guard (skipSpace rest).isEmpty
  return value

/-- The value that a whole text holds. -/
def read? (text : String) : Option Json := readList text.toList

end ReactorSynth.Json
