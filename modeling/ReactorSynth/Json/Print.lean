import ReactorSynth.Json
import ReactorSynth.Text.Hexadecimal

/-!
# Writing JSON

The compact text of a JSON value. In strings the quotation mark, the backslash and the control
characters are escaped, the common ones by their letter; every other character stands for itself.
-/

namespace ReactorSynth.Json

open Text

/-- A character as it is written inside a string. -/
def escapeChar (c : Char) : List Char :=
  if c = '"' then ['\\', '"']
  else if c = '\\' then ['\\', '\\']
  else if 0x20 ≤ c.toNat then [c]
  else if c = '\n' then ['\\', 'n']
  else if c = '\r' then ['\\', 'r']
  else if c = '\t' then ['\\', 't']
  else if c.toNat = 8 then ['\\', 'b']
  else if c.toNat = 12 then ['\\', 'f']
  else ['\\', 'u', '0', '0', hexDigit (c.toNat / 16), hexDigit (c.toNat % 16)]

/-- A string with its quotation marks. -/
def quoteChars (s : String) : List Char := '"' :: (s.toList.flatMap escapeChar ++ ['"'])

mutual

/-- The text of a value. An unreadable value has none; it is written as an unpaired surrogate. -/
def chars : Json → List Char
  | null => "null".toList
  | bool true => "true".toList
  | bool false => "false".toList
  | integer n => (toString n).toList
  | decimal text => text.toList
  | string s => quoteChars s
  | unreadable => "\"\\ud800\"".toList
  | array items => '[' :: itemsChars items
  | object members => '\x7b' :: membersChars members
termination_by structural j => j

/-- The items of an array with commas between them, and its closing bracket. -/
def itemsChars : List Json → List Char
  | [] => [']']
  | [item] => chars item ++ [']']
  | item :: rest => chars item ++ ',' :: itemsChars rest
termination_by structural items => items

/-- The members of an object with commas between them, and its closing brace. -/
def membersChars : List (String × Json) → List Char
  | [] => ['\x7d']
  | [member] => memberChars member ++ ['\x7d']
  | member :: rest => memberChars member ++ ',' :: membersChars rest
termination_by structural members => members

/-- A key and its value. -/
def memberChars : String × Json → List Char
  | (key, value) => quoteChars key ++ ':' :: chars value
termination_by structural member => member

end

/-- The compact text of a value. -/
def print (j : Json) : String := String.ofList j.chars

end ReactorSynth.Json
