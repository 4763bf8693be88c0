import ReactorSynth.InstanceTree
import ReactorSynth.Program

/-!
# Federates

A federate is the part of a program that runs as one unit. Generation asks three things of it: which
instances it owns, which reactions it runs, and which of these only carry messages between
federates.

In the usual layout, `FederateLayout`, a federate is one instantiation directly below the root, or
one member of such a bank. It owns its top-level instances and everything below them, and never the
root. A layout without an instantiation is that of a program with a single federate, which owns
everything.
-/

namespace ReactorSynth

/-- A federate by what it answers. -/
structure Federate where
  name : String
  /-- Whether the federate owns the instance of a number. -/
  owns : InstanceTree → Nat → Bool
  /-- Whether the federate runs a reaction. -/
  runs : ReactionKey → Bool
  /-- Whether a reaction only carries messages between federates. -/
  isNetwork : ReactionKey → Bool

namespace Federate

/-- Whether a reaction is part of the classes generated for the federate: all reactions of a reactor
that is not federated, and of a federated one those it runs other than network reactions. -/
def keeps (f : Federate) (reactor : Reactor) (key : ReactionKey) : Bool :=
  !reactor.isFederated || (f.runs key && !f.isNetwork key)

/-- The federate that owns exactly the instances of the given full names. -/
def owningNames (f : Federate) (names : List String) : Federate :=
  { f with owns := fun tree id => names.contains (tree.fullName id) }

end Federate

/-- The usual layout of a federate. -/
structure FederateLayout where
  name : String
  /-- The instantiation below the root that the federate runs, if it is not the only federate. -/
  instantiation : Option String := none
  /-- The member of the bank that the federate runs, if it runs a single one. -/
  bankIndex : Option Nat := none
  /-- Reactions that other federates run. -/
  excluded : List ReactionKey := []
  /-- Reactions that carry messages between federates. -/
  network : List ReactionKey := []
  deriving DecidableEq, Repr, Inhabited

namespace FederateLayout

/-- The only federate of a program. -/
def unfederated : FederateLayout := { name := "main" }

/-- Whether the federate is the only one. -/
def isSingleton (l : FederateLayout) : Bool := l.instantiation.isNone

/-- Whether a top-level instance is the instantiation, or the bank member, of the federate. -/
def ownsTopLevel (l : FederateLayout) (instantiation : String) (top : Instance) : Bool :=
  top.name == instantiation && (l.bankIndex.isNone || top.bankIndex == l.bankIndex)

/-- Whether the federate owns the instance of a number. -/
def owns (l : FederateLayout) (tree : InstanceTree) (id : Nat) : Bool :=
  match l.instantiation with
  | none => true
  | some instantiation =>
    match tree.topLevelAncestor? id with
    | none => false
    | some top => l.ownsTopLevel instantiation top

/-- The federate of a layout. -/
def toFederate (l : FederateLayout) : Federate where
  name := l.name
  owns := l.owns
  runs key := !l.excluded.contains key
  isNetwork key := l.network.contains key

end FederateLayout

end ReactorSynth
