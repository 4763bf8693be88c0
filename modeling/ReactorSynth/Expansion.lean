import ReactorSynth.ClassEmitter
import ReactorSynth.Federate

/-!
# Expansion

The classes that a federate needs from an instance tree. The tree is walked depth first. An instance
is eligible when it is the root or the federate owns it, and its class is no delay class; the first
eligible instance of each class name writes the class, and later ones add nothing. Every instance
is visited, so classes below instances that write nothing are still found.

A walk starts from the classes already written and leaves those written since added to them. When a
class fails the walk ends, and the classes written before it stay recorded.
-/

namespace ReactorSynth

/-! ## Written classes -/

/-- The names of the classes written so far, in order and each once. -/
structure EmittedClasses where
  names : List String := []
  deriving DecidableEq, Repr, Inhabited

namespace EmittedClasses

/-- Whether a class has been written. -/
def contains (s : EmittedClasses) (name : String) : Bool := s.names.contains name

/-- Record a class, if it is not yet recorded. -/
def insert (s : EmittedClasses) (name : String) : EmittedClasses :=
  if s.contains name then s else ⟨s.names ++ [name]⟩

@[simp] theorem contains_insert (s : EmittedClasses) (name other : String) :
    (s.insert name).contains other = (s.contains other || other == name) := by
  unfold insert
  split
  next h =>
    cases ho : other == name
    · simp
    · obtain rfl := eq_of_beq ho
      simpa using h
  next => cases ho : other == name <;> simp_all [contains]

end EmittedClasses

/-! ## Walk -/

/-- What an expansion works on. -/
structure Expansion where
  program : Program
  tree : InstanceTree
  federate : Federate
  emitter : ClassEmitter
  options : Options

/-- Classes in order of writing, and their text. -/
structure ExpandedClasses where
  source : String
  classNames : List String
  deriving DecidableEq, Repr, Inhabited

/-- A walk that writes classes. -/
abbrev WalkM := ExceptT GenError (StateM EmittedClasses)

namespace Expansion

/-- Whether an instance of a reactor may write the class of the reactor. -/
def isEligible (x : Expansion) (id : Nat) (reactor : Reactor) : Bool :=
  (id == x.tree.root.id || x.federate.owns x.tree id) && !x.options.isDelayClass reactor.name

/-- The reactions that the class of a reactor has in the federate, with their positions. -/
def keptReactions (x : Expansion) (id : Nat) (reactor : Reactor) : List (Nat × Reaction) :=
  reactor.indexedReactions.filter fun (index, _) => x.federate.keeps reactor ⟨id, index⟩

/-- The text of the class of the reactor at a position. -/
def classText (x : Expansion) (id : Nat) (reactor : Reactor) : Except GenError String :=
  x.emitter.classText ⟨x.program, id, reactor, x.options⟩ (x.keptReactions id reactor)

/-- What one instance adds: the text of its class if it is eligible and the class is not yet
written. -/
def visit (x : Expansion) (i : Instance) : WalkM String := do
  let emitted ← get
  match x.program.reactor? i.reactor with
  | none => return ""
  | some reactor =>
    if !x.isEligible i.id reactor || emitted.contains reactor.name then return ""
    else
      let text ← x.classText i.reactor reactor
      modify (·.insert reactor.name)
      return text

/-- What a row of instance trees adds. -/
def expandForest (x : Expansion) : Forest Instance → WalkM String
  | .nil => return ""
  | .cons top below after => do
    let first ← x.visit top
    let inner ← x.expandForest below
    let others ← x.expandForest after
    return first ++ (inner ++ others)

/-- What an instance and everything below it add. -/
def expandSubtree (x : Expansion) (t : InstanceTree) : WalkM String :=
  x.expandForest (.cons t.root t.children .nil)

/-- The classes of the whole tree. -/
def expandClasses (x : Expansion) : Except GenError ExpandedClasses :=
  let (outcome, emitted) := (x.expandSubtree x.tree).run.run {}
  outcome.map fun source => ⟨source, emitted.names⟩

end Expansion

end ReactorSynth
