/-!
# JSON values

Objects keep their members in written order, repeated keys included, so a reader can tell whether
a key was given twice. Numbers without fraction and exponent are `integer`s of any size; any other
number is kept as its text. A text value or an object that is well formed as JSON but spells
text outside Unicode (an unpaired surrogate) is `unreadable`: it can be passed over and nothing
can be read from it.
-/

namespace ReactorSynth

/-- A JSON value. -/
inductive Json where
  | null
  | bool (value : Bool)
  | integer (value : Int)
  | decimal (text : String)
  | string (value : String)
  | unreadable
  | array (items : List Json)
  | object (members : List (String × Json))
  deriving Repr, Inhabited

namespace Json

/-- A natural number as a JSON value. -/
def nat (n : Nat) : Json := integer n

/-- An optional value; `null` when there is none. -/
def ofOption {α : Type} (encode : α → Json) : Option α → Json
  | none => null
  | some a => encode a

/-- A list of values. -/
def ofList {α : Type} (encode : α → Json) (items : List α) : Json := array (items.map encode)

/-- The value of the first member with a given key; `null` if there is none or the value is no
object. -/
def field (key : String) : Json → Json
  | object members => (members.lookup key).getD null
  | _ => null

end Json

end ReactorSynth
