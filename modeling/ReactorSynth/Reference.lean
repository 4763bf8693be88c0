import ReactorSynth.GenError
import ReactorSynth.Program

/-!
# Resolved references

A reference is resolved in the reactor whose body it stands in: the container, if there is one,
is an instantiation of that reactor, and the variable is looked up in the class instantiated there,
otherwise in the reactor itself. A resolved reference has two texts: its bare name, for any kind of
variable, and its port text, which may carry a bank and a channel index and exists for ports only.
-/

namespace ReactorSynth

/-- What a reference stands for. -/
structure ResolvedRef where
  container : Option Instantiation
  target : Variable
  deriving DecidableEq, Repr, Inhabited

namespace VarRef

/-- The reactor that a reference looks its variable up in, with the container it goes through. -/
def scope (ref : VarRef) (program : Program) (reactor : Reactor) :
    Except GenError (Option Instantiation × Reactor) :=
  match ref.container with
  | none => .ok (none, reactor)
  | some name =>
    match reactor.instantiationNamed? name with
    | none => .error (.unknownContainer name reactor.name)
    | some instantiation =>
      match program.reactorNamed? instantiation.reactorClass with
      | none => .error (.unknownReactor instantiation.reactorClass)
      | some inner => .ok (some instantiation, inner)

/-- What a reference stands for in the body of a reactor. -/
def resolve (ref : VarRef) (program : Program) (reactor : Reactor) :
    Except GenError ResolvedRef :=
  match ref.scope program reactor with
  | .error e => .error e
  | .ok (container, inner) =>
    match inner.variableNamed? ref.name with
    | none => .error (.unresolvedVariable ref.name inner.name)
    | some target => .ok ⟨container, target⟩

end VarRef

namespace ResolvedRef

/-- The name of the variable, behind the name of its container if it has one. -/
def text (r : ResolvedRef) : String :=
  match r.container with
  | none => r.target.name
  | some container => container.name ++ "." ++ r.target.name

/-- An index in brackets, if there is one, it is not negative, and the declaration has a width. -/
def subscript (hasWidth : Bool) (index : Option Int64) : String :=
  match index with
  | none => ""
  | some i => if hasWidth && decide (0 ≤ i) then "[" ++ toString i.toInt ++ "]" else ""

/-- The text of a port, with the bank index of its container and its own channel index where they
apply; no other variable has one. -/
def portText (r : ResolvedRef) (bank channel : Option Int64) : Except GenError String :=
  match r.target with
  | .port port =>
    let path := match r.container with
      | none => ""
      | some container => container.name ++ subscript container.isBank bank ++ "."
    .ok (path ++ port.name ++ subscript port.isMultiport channel)
  | other => .error (.notAPort r.text other.kind)

/-- The name under which a reaction receives the reference: that of its container, or else its
own; the timers of a reactor are not passed. -/
def argument? (r : ResolvedRef) : Option String :=
  match r.container with
  | some container => some container.name
  | none => if r.target.isTimer then none else some r.target.name

/-- The text of a reference as an effect: actions by name, ports by their port text; a timer is no
effect. -/
def effectText (r : ResolvedRef) : Except GenError String :=
  match r.target with
  | .action _ => .ok r.text
  | _ => r.portText none none

end ResolvedRef

end ReactorSynth
