import ReactorSynth.Json
import ReactorSynth.Program

/-!
# Programs as JSON: writing

Every field of a record is written, a missing value as `null`. An alternative with content is an
object with its name as the only key, one without content its name as a text.
-/

namespace ReactorSynth

/-- The names of the time units. -/
def TimeUnit.jsonName : TimeUnit → String
  | none => "none"
  | unit => unit.canonicalName

/-- A unit is its name. -/
def TimeUnit.encode (u : TimeUnit) : Json := .string u.jsonName

/-- A time value is an object of magnitude and unit. -/
def TimeValue.encode (t : TimeValue) : Json :=
  .object [("magnitude", .integer t.magnitude.toInt), ("unit", t.unit.encode)]

/-- A value is a choice of time, parameter and literal. -/
def Value.encode : Value → Json
  | time t => .object [("time", t.encode)]
  | parameter name => .object [("parameter", .string name)]
  | literal text => .object [("literal", .string text)]

/-- A type is a choice of time, code and list; a list has an element type and a size. -/
def DataType.encode : DataType → Json
  | time => .string "time"
  | code text => .object [("code", .string text)]
  | list element size =>
    .object [("list", .object
      [("element", element.encode), ("size", .ofOption (fun n => .nat n.toNat) size)])]

/-- A width term is a choice of literal and parameter. -/
def WidthTerm.encode : WidthTerm → Json
  | literal width => .object [("literal", .nat width.toNat)]
  | parameter name => .object [("parameter", .string name)]

/-- A width is an object of its terms. -/
def Width.encode (w : Width) : Json := .object [("terms", .ofList WidthTerm.encode w.terms)]

/-- A parameter is an object of name, type and initial values. -/
def Parameter.encode (p : Parameter) : Json :=
  .object
    [("name", .string p.name), ("ty", .ofOption DataType.encode p.type),
     ("init", .ofList Value.encode p.init)]

/-- A state variable is an object of name, type and initial values. -/
def StateVar.encode (s : StateVar) : Json :=
  .object
    [("name", .string s.name), ("ty", .ofOption DataType.encode s.type),
     ("init", .ofList Value.encode s.init)]

/-- The names of the directions of ports. -/
def Direction.jsonName : Direction → String
  | input => "input"
  | output => "output"

/-- A port is an object of name, direction, type and width. -/
def Port.encode (p : Port) : Json :=
  .object
    [("name", .string p.name), ("direction", .string p.direction.jsonName),
     ("ty", .ofOption DataType.encode p.type), ("width", .ofOption Width.encode p.width)]

/-- The names of the origins of actions. -/
def Origin.jsonName : Origin → String
  | logical => "logical"
  | physical => "physical"

/-- An action is an object of name, origin and type. -/
def Action.encode (a : Action) : Json :=
  .object
    [("name", .string a.name), ("origin", .string a.origin.jsonName),
     ("ty", .ofOption DataType.encode a.type)]

/-- A timer is an object of name, offset and period. -/
def Timer.encode (t : Timer) : Json :=
  .object
    [("name", .string t.name), ("offset", .ofOption Value.encode t.offset),
     ("period", .ofOption Value.encode t.period)]

/-- A reference is an object of container and variable. -/
def VarRef.encode (r : VarRef) : Json :=
  .object [("container", .ofOption .string r.container), ("variable", .string r.name)]

/-- A reaction is an object of its references, its body and its label. -/
def Reaction.encode (r : Reaction) : Json :=
  .object
    [("triggers", .ofList VarRef.encode r.triggers), ("sources", .ofList VarRef.encode r.sources),
     ("effects", .ofList VarRef.encode r.effects), ("code", .string r.code),
     ("label", .ofOption .string r.label)]

/-- The values given to a parameter, as a pair of the parameter's name and the values. -/
def Instantiation.encodeAssignment (assignment : String × List Value) : Json :=
  .array [.string assignment.1, .ofList Value.encode assignment.2]

/-- An instantiation is an object of name, class, width and parameter values. -/
def Instantiation.encode (i : Instantiation) : Json :=
  .object
    [("name", .string i.name), ("reactor_class", .string i.reactorClass),
     ("width", .ofOption Width.encode i.width),
     ("parameters", .ofList encodeAssignment i.parameters)]

/-- A reactor is an object of its name, its two flags and its declarations by kind. -/
def Reactor.encode (r : Reactor) : Json :=
  .object
    [("name", .string r.name), ("is_main", .bool r.isMain), ("is_federated", .bool r.isFederated),
     ("preambles", .ofList .string r.preambles),
     ("parameters", .ofList Parameter.encode r.parameters),
     ("state_vars", .ofList StateVar.encode r.stateVars), ("ports", .ofList Port.encode r.ports),
     ("actions", .ofList Action.encode r.actions), ("timers", .ofList Timer.encode r.timers),
     ("reactions", .ofList Reaction.encode r.reactions),
     ("instantiations", .ofList Instantiation.encode r.instantiations)]

/-- A program is an object of its reactors. -/
def Program.encode (p : Program) : Json :=
  .object [("reactors", .ofList Reactor.encode p.reactors)]

/-- A reaction key is an object of two positions. -/
def ReactionKey.encode (k : ReactionKey) : Json :=
  .object [("reactor", .nat k.reactor), ("index", .nat k.index)]

end ReactorSynth
