import ReactorSynth.Numeral
import ReactorSynth.Time

/-!
# Initial values and delays

The values that declarations start from and the delays of connections, with their source text and
their target-neutral text. A value is zero when it is a time of magnitude zero or a numeral that
counts as zero; a parameter never is, whatever its default.
-/

namespace ReactorSynth

/-- An initial value: a time, a parameter of the enclosing reactor, or text passed through. -/
inductive Value where
  | time (t : TimeValue)
  | parameter (name : String)
  | literal (text : String)
  deriving DecidableEq, Repr, Inhabited

namespace Value

/-- Whether the value is zero as it stands. -/
def isZero : Value → Bool
  | time t => t.isZero
  | parameter _ => false
  | literal text => isZeroNumeral text

/-- The source text. -/
def text : Value → String
  | time t => t.text
  | parameter name => name
  | literal text => text

/-- The target-neutral text: times as unit calls, any zero numeral as `0`, all else as written. -/
def lowered (v : Value) : String :=
  match v with
  | time t => t.lowered
  | v => if v.isZero then TimeValue.zero.lowered else v.text

/-- The target-neutral text with zero numerals kept as written. -/
def loweredAsWritten : Value → String
  | time t => t.lowered
  | v => v.text

end Value

/-- The delay of a connection. -/
inductive Delay where
  | parameter (name : String)
  | time (t : TimeValue)
  deriving DecidableEq, Repr, Inhabited

namespace Delay

/-- The source text. -/
def text : Delay → String
  | parameter name => name
  | time t => t.text

/-- The target-neutral text; a parameter keeps its name, so the delay follows the parameter and
not its default. -/
def lowered : Delay → String
  | parameter name => name
  | time t => t.lowered

end Delay

end ReactorSynth
