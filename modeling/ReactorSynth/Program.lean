import ReactorSynth.Value

/-!
# Programs

The reactor classes of a program and what they declare: parameters, state variables, ports,
actions, timers, reactions and instantiations of other classes. Declarations keep their source
order, and a look-up by name finds the first declaration of that name. A reactor is identified by
its position in the program and a reaction by its reactor and its position there.
-/

namespace ReactorSynth

/-! ## Types and widths -/

/-- A declared type; a list without a size has variable length. -/
inductive DataType where
  | time
  | code (text : String)
  | list (element : DataType) (size : Option UInt64)
  deriving DecidableEq, Repr, Inhabited

/-- Whether the type is the built-in time type. -/
def DataType.isTime : DataType → Bool
  | time => true
  | _ => false

/-- A summand of a width. -/
inductive WidthTerm where
  | literal (width : UInt32)
  | parameter (name : String)
  deriving DecidableEq, Repr, Inhabited

/-- The width of a bank or a multiport: the sum of its terms. -/
structure Width where
  terms : List WidthTerm
  deriving DecidableEq, Repr, Inhabited

namespace Width

/-- A width given as a number. -/
def literal (width : UInt32) : Width := ⟨[.literal width]⟩

/-- A width given by a parameter. -/
def parameter (name : String) : Width := ⟨[.parameter name]⟩

end Width

/-! ## Declarations -/

/-- A parameter of a reactor. -/
structure Parameter where
  name : String
  type : Option DataType := none
  init : List Value := []
  deriving DecidableEq, Repr, Inhabited

/-- A state variable of a reactor. -/
structure StateVar where
  name : String
  type : Option DataType := none
  init : List Value := []
  deriving DecidableEq, Repr, Inhabited

/-- The direction of a port. -/
inductive Direction where
  | input
  | output
  deriving DecidableEq, Repr, Inhabited

/-- A port; one with a width is a multiport. -/
structure Port where
  name : String
  direction : Direction
  type : Option DataType := none
  width : Option Width := none
  deriving DecidableEq, Repr, Inhabited

/-- Whether a port has a width. -/
def Port.isMultiport (p : Port) : Bool := p.width.isSome

/-- The origin of the events of an action. -/
inductive Origin where
  | logical
  | physical
  deriving DecidableEq, Repr, Inhabited

/-- An action. -/
structure Action where
  name : String
  origin : Origin := .logical
  type : Option DataType := none
  deriving DecidableEq, Repr, Inhabited

/-- A timer. -/
structure Timer where
  name : String
  offset : Option Value := none
  period : Option Value := none
  deriving DecidableEq, Repr, Inhabited

/-- A reference by name to a variable of the reactor itself or, through one of its instantiations,
the `container`, to a variable of the class instantiated there. -/
structure VarRef where
  container : Option String := none
  name : String
  deriving DecidableEq, Repr, Inhabited

/-- A reaction with the text of its body. -/
structure Reaction where
  triggers : List VarRef := []
  sources : List VarRef := []
  effects : List VarRef := []
  code : String := ""
  label : Option String := none
  deriving DecidableEq, Repr, Inhabited

/-- An instantiation of a reactor class; one with a width is a bank. -/
structure Instantiation where
  name : String
  reactorClass : String
  width : Option Width := none
  parameters : List (String × List Value) := []
  deriving DecidableEq, Repr, Inhabited

/-- Whether an instantiation has a width. -/
def Instantiation.isBank (i : Instantiation) : Bool := i.width.isSome

/-- A reactor class. -/
structure Reactor where
  name : String
  isMain : Bool := false
  isFederated : Bool := false
  preambles : List String := []
  parameters : List Parameter := []
  stateVars : List StateVar := []
  ports : List Port := []
  actions : List Action := []
  timers : List Timer := []
  reactions : List Reaction := []
  instantiations : List Instantiation := []
  deriving DecidableEq, Repr, Inhabited

/-- The reactor classes of a compilation unit. -/
structure Program where
  reactors : List Reactor
  deriving DecidableEq, Repr, Inhabited

/-- The identity of a reaction: the position of its reactor and its position there. -/
structure ReactionKey where
  reactor : Nat
  index : Nat
  deriving DecidableEq, Repr, Inhabited

/-! ## Variables -/

/-- What a reference may name. -/
inductive Variable where
  | port (p : Port)
  | action (a : Action)
  | timer (t : Timer)
  deriving DecidableEq, Repr, Inhabited

namespace Variable

/-- The declared name. -/
def name : Variable → String
  | port p => p.name
  | action a => a.name
  | timer t => t.name

/-- The kind of variable, with its article. -/
def kind : Variable → String
  | port _ => "a port"
  | action _ => "an action"
  | timer _ => "a timer"

/-- Whether the variable is a timer. -/
def isTimer : Variable → Bool
  | timer _ => true
  | _ => false

end Variable

/-! ## Look-ups in a reactor -/

namespace Reactor

/-- The first parameter of a name. -/
def parameterNamed? (r : Reactor) (name : String) : Option Parameter :=
  r.parameters.find? (·.name == name)

/-- The first port of a name. -/
def portNamed? (r : Reactor) (name : String) : Option Port := r.ports.find? (·.name == name)

/-- The first action of a name. -/
def actionNamed? (r : Reactor) (name : String) : Option Action := r.actions.find? (·.name == name)

/-- The first timer of a name. -/
def timerNamed? (r : Reactor) (name : String) : Option Timer := r.timers.find? (·.name == name)

/-- The first instantiation of a name. -/
def instantiationNamed? (r : Reactor) (name : String) : Option Instantiation :=
  r.instantiations.find? (·.name == name)

/-- The variable of a name: a port before an action before a timer. -/
def variableNamed? (r : Reactor) (name : String) : Option Variable :=
  ((r.portNamed? name).map .port).or
    (((r.actionNamed? name).map .action).or ((r.timerNamed? name).map .timer))

/-- The name that stands for the reaction at a position in generated code. -/
def reactionName (index : Nat) : String := "r" ++ toString index

/-- The label of the reaction at a position, or its name if it has none. -/
def reactionLabel (r : Reactor) (index : Nat) : String :=
  (r.reactions[index]?.bind (·.label)).getD (reactionName index)

/-- Reactions run in declaration order; the first has priority one. -/
def reactionPriority (index : Nat) : Nat := index + 1

/-- The reactions with their positions, in declaration order. -/
def indexedReactions (r : Reactor) : List (Nat × Reaction) :=
  r.reactions.zipIdx.map fun (reaction, index) => (index, reaction)

/-- Whether a reactor declares nothing. -/
def isPlain (r : Reactor) : Bool := r == { name := r.name }

end Reactor

/-! ## Look-ups in a program -/

namespace Program

/-- The reactor at a position. -/
def reactor? (p : Program) (id : Nat) : Option Reactor := p.reactors[id]?

/-- The position of the first reactor of a name. -/
def reactorId? (p : Program) (name : String) : Option Nat :=
  p.reactors.findIdx? (·.name == name)

/-- The first reactor of a name. -/
def reactorNamed? (p : Program) (name : String) : Option Reactor :=
  p.reactors.find? (·.name == name)

/-- The position of the first main reactor. -/
def mainId? (p : Program) : Option Nat := p.reactors.findIdx? (·.isMain)

/-- The keys of the reactions of the reactor at a position, in declaration order. -/
def reactionKeys (p : Program) (id : Nat) : List ReactionKey :=
  match p.reactor? id with
  | none => []
  | some r => (List.range r.reactions.length).map (⟨id, ·⟩)

/-- The keys of all reactions, in declaration order. -/
def allReactionKeys (p : Program) : List ReactionKey :=
  (List.range p.reactors.length).flatMap p.reactionKeys

end Program

end ReactorSynth
