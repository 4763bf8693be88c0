import ReactorSynth.Json

/-!
# Decoding JSON

Readers of data from JSON values. A reader is given how many levels of arrays and objects it may
still enter, and fails where the value goes deeper; values it has no use for may be of any depth.

* A record is an object with a member for each field, in any order; unknown members are passed over,
  a field given twice is refused. Unless it has to be an object, it may also be an array of the
  fields in their order, from which fields at the end may be missing if they have a default.
* A choice is an object with one member, the name of the alternative and its content. An alternative
  without content is its name alone, or an object with `null` as the content.
-/

namespace ReactorSynth

/-- A reader of data, given the levels it may still enter. -/
abbrev Decoder (α : Type) := (levels : Nat) → Json → Option α

namespace Decoder

variable {α β : Type}

/-- The levels that a text may nest as a whole. -/
def nestingLimit : Nat := 127

/-! ## Plain values -/

/-- A text. -/
def string : Decoder String
  | _, .string s => some s
  | _, _ => none

/-- A truth value. -/
def bool : Decoder Bool
  | _, .bool b => some b
  | _, _ => none

/-- An integer from `least` up to, and not including, `bound`. -/
def integer (least bound : Int) : Decoder Int
  | _, .integer n => if least ≤ n ∧ n < bound then some n else none
  | _, _ => none

/-- A natural number below a bound. -/
def nat (bound : Nat) : Decoder Nat := fun levels j => (integer 0 bound levels j).map Int.toNat

/-- An unsigned number of 32 bits. -/
def uint32 : Decoder UInt32 := fun levels j => (nat UInt32.size levels j).map UInt32.ofNat

/-- An unsigned number of 64 bits. -/
def uint64 : Decoder UInt64 := fun levels j => (nat UInt64.size levels j).map UInt64.ofNat

/-- A signed number of 64 bits. -/
def int64 : Decoder Int64 := fun levels j =>
  (integer Int64.minValue.toInt (Int64.maxValue.toInt + 1) levels j).map Int64.ofInt

/-- A value that may be `null`. -/
def option (decode : Decoder α) : Decoder (Option α)
  | _, .null => some none
  | levels, j => (decode levels j).map some

/-- An array of any length. -/
def list (decode : Decoder α) : Decoder (List α)
  | levels + 1, .array items => items.mapM (decode levels)
  | _, _ => none

/-- An array of two items. -/
def pair (first : Decoder α) (second : Decoder β) : Decoder (α × β)
  | levels + 1, .array [a, b] => do return (← first levels a, ← second levels b)
  | _, _ => none

/-! ## Choices -/

/-- The only member of an object, with the levels its content may enter. -/
def choice : Decoder (Nat × String × Json)
  | levels + 1, .object [(name, content)] => some (levels, name, content)
  | _, _ => none

/-- A choice among alternatives without content. -/
def enumeration (alternatives : List (String × α)) : Decoder α
  | _, .string name => alternatives.lookup name
  | levels, j =>
    match choice levels j with
    | some (_, name, .null) => alternatives.lookup name
    | _ => none

/-! ## Records -/

/-- The fields that are given for a record, and the levels their contents may enter. -/
structure Fields where
  levels : Nat
  /-- Whether the record is an array of its fields. -/
  positional : Bool
  members : List (String × Json)

/-- The given fields of a record with the field names `names`, which is an object. -/
def objectRecord (names : List String) : Decoder Fields
  | levels + 1, .object members =>
    let known := members.filter fun (name, _) => names.contains name
    if (known.map (·.1)).Nodup then some ⟨levels, false, known⟩ else none
  | _, _ => none

/-- The given fields of a record with the field names `names`, which is an object or an array. -/
def record (names : List String) : Decoder Fields
  | levels + 1, .array items =>
    if items.length ≤ names.length then some ⟨levels, true, names.zip items⟩ else none
  | levels, j => objectRecord names levels j

namespace Fields

/-- A field that has to be given. -/
def required (fields : Fields) (name : String) (decode : Decoder α) : Option α :=
  match fields.members.lookup name with
  | none => none
  | some j => decode fields.levels j

/-- A field with a default. -/
def withDefault (fields : Fields) (name : String) (default : α) (decode : Decoder α) : Option α :=
  match fields.members.lookup name with
  | none => some default
  | some j => decode fields.levels j

/-- A field that may be `null` and is so when it is not given. -/
def optional (fields : Fields) (name : String) (decode : Decoder α) : Option (Option α) :=
  fields.withDefault name none (option decode)

/-- A field that may be `null` and is so when an object does not give it; an array has to. -/
def nullable (fields : Fields) (name : String) (decode : Decoder α) : Option (Option α) :=
  if fields.positional then fields.required name (option decode)
  else fields.optional name decode

end Fields

end Decoder

end ReactorSynth
