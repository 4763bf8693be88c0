/-!
# Time units and time values

A time value is a signed 64-bit magnitude with a unit. The unit `none` marks a bare magnitude,
which stands for a time only when it is zero. Lengths are counted in nanoseconds, over `Int`, so
no unit overflows.
-/

namespace ReactorSynth

/-! ## Units -/

/-- The unit of a time value; `none` is no unit at all. -/
inductive TimeUnit where
  | none
  | nsec
  | usec
  | msec
  | sec
  | min
  | hour
  | day
  | week
  deriving DecidableEq, Repr, Inhabited

namespace TimeUnit

/-- The units with a dimension, in increasing order of length. -/
def dimensional : List TimeUnit := [nsec, usec, msec, sec, min, hour, day, week]

/-- The canonical lower-case name; empty for `none`. -/
def canonicalName : TimeUnit → String
  | none => ""
  | nsec => "nsec"
  | usec => "usec"
  | msec => "msec"
  | sec => "sec"
  | min => "min"
  | hour => "hour"
  | day => "day"
  | week => "week"

/-- The name of the unit function that stands for the unit in lowered text: the canonical name,
which has no letters but those of ASCII, in capitals. -/
def functionName (unit : TimeUnit) : String :=
  String.ofList (unit.canonicalName.toList.map Char.toUpper)

example : dimensional.map functionName =
    ["NSEC", "USEC", "MSEC", "SEC", "MIN", "HOUR", "DAY", "WEEK"] := by decide +kernel

/-- Every spelling a unit has in source text: the canonical name, its abbreviations and plurals. -/
def spellings : List (String × TimeUnit) :=
  [("ns", nsec), ("nsec", nsec), ("nsecs", nsec),
   ("us", usec), ("usec", usec), ("usecs", usec),
   ("ms", msec), ("msec", msec), ("msecs", msec),
   ("s", sec), ("sec", sec), ("secs", sec), ("second", sec), ("seconds", sec),
   ("min", min), ("mins", min), ("minute", min), ("minutes", min),
   ("h", hour), ("hour", hour), ("hours", hour),
   ("d", day), ("day", day), ("days", day),
   ("week", week), ("weeks", week)]

/-- The unit with a given spelling. -/
def ofName? (name : String) : Option TimeUnit := spellings.lookup name

/-- The length of one unit in nanoseconds; a bare magnitude counts nanoseconds. -/
def nanos : TimeUnit → Int
  | none => 1
  | nsec => 1
  | usec => 1000
  | msec => 1000000
  | sec => 1000000000
  | min => 60 * 1000000000
  | hour => 3600 * 1000000000
  | day => 86400 * 1000000000
  | week => 604800 * 1000000000

end TimeUnit

/-! ## Time values -/

/-- A magnitude with a unit. -/
structure TimeValue where
  magnitude : Int64
  unit : TimeUnit
  deriving DecidableEq, Repr, Inhabited

namespace TimeValue

/-- The zero without a unit. -/
def zero : TimeValue := ⟨0, .none⟩

/-- A time value is zero when its magnitude is, whatever its unit. -/
def isZero (t : TimeValue) : Bool := t.magnitude == 0

/-- A time value denotes a time when it has a unit or is zero. -/
def isTime (t : TimeValue) : Bool := t.unit != .none || t.isZero

/-- The exact length in nanoseconds. -/
def toNanos (t : TimeValue) : Int := t.magnitude.toInt * t.unit.nanos

/-- The magnitude in decimal. -/
def magnitudeText (t : TimeValue) : String := toString t.magnitude.toInt

/-- The source text: the magnitude, then a space and the unit if there is one. -/
def text (t : TimeValue) : String :=
  match t.unit with
  | .none => t.magnitudeText
  | unit => t.magnitudeText ++ " " ++ unit.canonicalName

/-- The target-neutral token: a unit function applied to the magnitude, or the bare magnitude. -/
def lowered (t : TimeValue) : String :=
  match t.unit with
  | .none => t.magnitudeText
  | unit => unit.functionName ++ "(" ++ t.magnitudeText ++ ")"

/-- The token of a time that may be missing, which counts as `0`. -/
def lowered? : Option TimeValue → String
  | none => "0"
  | some t => t.lowered

end TimeValue

end ReactorSynth
