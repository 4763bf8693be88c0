import ReactorSynth.Program

/-!
# Types of declarations without a declared type

Two types are ever inferred: time, for a single time value other than zero, and time list, for two
or more values that all may be times when not all are zero. Everything else stays undefined, which
is a result and no failure. A lone zero stays undefined, because it may as well be a count.

A value that refers to a parameter has the type of that parameter's first declaration in scope.
References are followed through at most `indirectionLimit` parameters; a parameter met again on the
way, like one that is not in scope, is undefined.
-/

namespace ReactorSynth

/-- The type of a declaration: the declared one, or the inferred one. -/
inductive InferredType where
  | explicit (type : DataType)
  | time
  | timeList
  | undefined
  deriving DecidableEq, Repr, Inhabited

namespace InferredType

/-- Whether the type is time, inferred or declared. -/
def isTime : InferredType → Bool
  | time => true
  | explicit type => type.isTime
  | _ => false

/-- Whether the values of the type are times or lists of times. -/
def isTimeLike : InferredType → Bool
  | time => true
  | timeList => true
  | explicit .time => true
  | explicit (.list element _) => element.isTime
  | _ => false

/-- Whether nothing is known of the type. -/
def isUndefined : InferredType → Bool
  | undefined => true
  | _ => false

/-- The type of the elements of a list type; any other type is its own element type. -/
def element : InferredType → InferredType
  | timeList => time
  | explicit (.list element _) => explicit element
  | other => other

/-- The declared type, if there is one, and nothing inferred. -/
def declared : Option DataType → InferredType
  | none => undefined
  | some type => explicit type

end InferredType

/-- The parameters that values may refer to. -/
abbrev Scope := List Parameter

namespace Typing

/-- The most parameters that one chain of references is followed through. -/
def indirectionLimit : Nat := 32

/-- Whether a value may stand for a time, given the type of each parameter: a time with a unit or
of magnitude zero, a numeral, or a parameter of type time. -/
def mayBeTime (typeOf : String → InferredType) : Value → Bool
  | .time t => t.isTime
  | .literal text => isNumeral text
  | .parameter name => (typeOf name).isTime

/-- The type that values give a declaration, given the type of each parameter. -/
def ofValues (typeOf : String → InferredType) : List Value → InferredType
  | [] => .undefined
  | [.parameter name] => typeOf name
  | [value] => if mayBeTime typeOf value && !value.isZero then .time else .undefined
  | values =>
    if values.all (mayBeTime typeOf) && values.any (fun v => !v.isZero) then .timeList
    else .undefined

/-- The type of a declaration, given the type of each parameter: the declared one wins. -/
def ofDeclaration (typeOf : String → InferredType) (type : Option DataType)
    (init : List Value) : InferredType :=
  match type with
  | some type => .explicit type
  | none => ofValues typeOf init

/-- The type of a parameter, reached through the parameters in `chain` and with `remaining` more
to follow at most. -/
def ofParameter (scope : Scope) : (remaining : Nat) → (chain : List String) → String → InferredType
  | 0, _, _ => .undefined
  | remaining + 1, chain, name =>
    if chain.contains name then .undefined
    else match scope.find? (·.name == name) with
      | none => .undefined
      | some p => ofDeclaration (ofParameter scope remaining (name :: chain)) p.type p.init

/-- The type of a declaration when chains of references are cut after `limit` parameters. -/
def inferWithin (limit : Nat) (scope : Scope) (type : Option DataType) (init : List Value) :
    InferredType :=
  ofDeclaration (ofParameter scope limit []) type init

/-- The type of a declaration in a scope. -/
def infer (scope : Scope) (type : Option DataType) (init : List Value) : InferredType :=
  inferWithin indirectionLimit scope type init

/-- Whether a value may stand for a time in a scope. -/
def isTimeValue (scope : Scope) (value : Value) : Bool :=
  mayBeTime (ofParameter scope indirectionLimit []) value

end Typing

/-! ## Types of the declarations of a reactor -/

/-- The type of a parameter in a scope. -/
def Parameter.inferredType (p : Parameter) (scope : Scope) : InferredType :=
  Typing.infer scope p.type p.init

/-- The type of a state variable in a scope. -/
def StateVar.inferredType (s : StateVar) (scope : Scope) : InferredType :=
  Typing.infer scope s.type s.init

/-- The type of a port: it has no initial value, so only a declared type counts. -/
def Port.inferredType (p : Port) : InferredType := .declared p.type

/-- The type of an action: it has no initial value, so only a declared type counts. -/
def Action.inferredType (a : Action) : InferredType := .declared a.type

end ReactorSynth
