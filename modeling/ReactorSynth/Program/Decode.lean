import ReactorSynth.Json.Decode
import ReactorSynth.Json.Print
import ReactorSynth.Json.Read
import ReactorSynth.Options
import ReactorSynth.Program.Encode

/-!
# Programs as JSON: reading

The readers of the parts of a program, of generation options and of reaction keys. Types, widths
and other values that may be missing may be left out or `null`; lists, flags and texts with a
default may be left out and not be `null`; everything else has to be given.

Every record may be an array of its fields, with one exception: the content of a list type that is
given on its own, and not as part of a program, is an object.
-/

namespace ReactorSynth

open Decoder

/-! ## Values and types -/

/-- The reader of time units, by name. -/
def TimeUnit.decode : Decoder TimeUnit :=
  enumeration
    [("none", .none), ("nsec", .nsec), ("usec", .usec), ("msec", .msec), ("sec", .sec),
     ("min", .min), ("hour", .hour), ("day", .day), ("week", .week)]

/-- The reader of time values; magnitude and unit have to be given. -/
def TimeValue.decode : Decoder TimeValue := fun levels j => do
  let fields ← record ["magnitude", "unit"] levels j
  return {
    magnitude := ← fields.required "magnitude" int64
    unit := ← fields.required "unit" TimeUnit.decode }

/-- The reader of initial values. -/
def Value.decode : Decoder Value := fun levels j => do
  let (levels, name, content) ← choice levels j
  match name with
  | "time" => (TimeValue.decode levels content).map .time
  | "parameter" => (string levels content).map .parameter
  | "literal" => (string levels content).map .literal
  | _ => none

/-- The reader of delays, a choice of parameter and time. -/
def Delay.decode : Decoder Delay := fun levels j => do
  let (levels, name, content) ← choice levels j
  match name with
  | "parameter" => (string levels content).map .parameter
  | "time" => (TimeValue.decode levels content).map .time
  | _ => none

/-- The reader of types, given a reader for the record that is the content of a list type. A list
type enters two levels, for the choice and for the record. -/
def DataType.decodeWith (content : List String → Decoder Fields) :
    (levels : Nat) → Json → Option DataType
  | _, .string name => if name = "time" then some .time else none
  | levels + 1, .object [(name, j)] =>
    match name with
    | "time" =>
      match j with
      | .null => some .time
      | _ => none
    | "code" => (string levels j).map .code
    | "list" =>
      match levels with
      | 0 => none
      | inner + 1 => do
        let fields ← content ["element", "size"] (inner + 1) j
        let element ← fields.required "element" fun _ => DataType.decodeWith content inner
        let size ← fields.nullable "size" uint64
        return .list element size
    | _ => none
  | _, _ => none

/-- The reader of types in a program, where the content of a list may be an array. -/
def DataType.decode : Decoder DataType := decodeWith record

/-- The reader of types on their own, where the content of a list is an object. -/
def DataType.decodeAlone : Decoder DataType := decodeWith objectRecord

/-- The reader of width terms. -/
def WidthTerm.decode : Decoder WidthTerm := fun levels j => do
  let (levels, name, content) ← choice levels j
  match name with
  | "literal" => (uint32 levels content).map .literal
  | "parameter" => (string levels content).map .parameter
  | _ => none

/-- The reader of widths; the terms have to be given and may be none. -/
def Width.decode : Decoder Width := fun levels j => do
  let fields ← record ["terms"] levels j
  return { terms := ← fields.required "terms" (list WidthTerm.decode) }

/-! ## Declarations -/

/-- The reader of parameters, given that of types; only the name has to be given. -/
def Parameter.decodeWith (type : Decoder DataType) : Decoder Parameter := fun levels j => do
  let fields ← record ["name", "ty", "init"] levels j
  return {
    name := ← fields.required "name" string
    type := ← fields.optional "ty" type
    init := ← fields.withDefault "init" [] (list Value.decode) }

/-- The reader of parameters in a program. -/
def Parameter.decode : Decoder Parameter := decodeWith DataType.decode

/-- The reader of parameters on their own. -/
def Parameter.decodeAlone : Decoder Parameter := decodeWith DataType.decodeAlone

/-- The reader of state variables; only the name has to be given. -/
def StateVar.decode : Decoder StateVar := fun levels j => do
  let fields ← record ["name", "ty", "init"] levels j
  return {
    name := ← fields.required "name" string
    type := ← fields.optional "ty" DataType.decode
    init := ← fields.withDefault "init" [] (list Value.decode) }

/-- The reader of port directions, by name. -/
def Direction.decode : Decoder Direction := enumeration [("input", .input), ("output", .output)]

/-- The reader of ports; name and direction have to be given. -/
def Port.decode : Decoder Port := fun levels j => do
  let fields ← record ["name", "direction", "ty", "width"] levels j
  return {
    name := ← fields.required "name" string
    direction := ← fields.required "direction" Direction.decode
    type := ← fields.optional "ty" DataType.decode
    width := ← fields.optional "width" Width.decode }

/-- The reader of action origins, by name. -/
def Origin.decode : Decoder Origin := enumeration [("logical", .logical), ("physical", .physical)]

/-- The reader of actions; only the name has to be given, and the origin is logical unless given. -/
def Action.decode : Decoder Action := fun levels j => do
  let fields ← record ["name", "origin", "ty"] levels j
  return {
    name := ← fields.required "name" string
    origin := ← fields.withDefault "origin" .logical Origin.decode
    type := ← fields.optional "ty" DataType.decode }

/-- The reader of timers; only the name has to be given. -/
def Timer.decode : Decoder Timer := fun levels j => do
  let fields ← record ["name", "offset", "period"] levels j
  return {
    name := ← fields.required "name" string
    offset := ← fields.optional "offset" Value.decode
    period := ← fields.optional "period" Value.decode }

/-- The reader of references; the variable has to be given. -/
def VarRef.decode : Decoder VarRef := fun levels j => do
  let fields ← record ["container", "variable"] levels j
  return {
    container := ← fields.optional "container" string
    name := ← fields.required "variable" string }

/-- The reader of reactions; nothing has to be given. -/
def Reaction.decode : Decoder Reaction := fun levels j => do
  let fields ← record ["triggers", "sources", "effects", "code", "label"] levels j
  return {
    triggers := ← fields.withDefault "triggers" [] (list VarRef.decode)
    sources := ← fields.withDefault "sources" [] (list VarRef.decode)
    effects := ← fields.withDefault "effects" [] (list VarRef.decode)
    code := ← fields.withDefault "code" "" string
    label := ← fields.optional "label" string }

/-- The reader of instantiations; name and class have to be given. -/
def Instantiation.decode : Decoder Instantiation := fun levels j => do
  let fields ← record ["name", "reactor_class", "width", "parameters"] levels j
  return {
    name := ← fields.required "name" string
    reactorClass := ← fields.required "reactor_class" string
    width := ← fields.optional "width" Width.decode
    parameters := ← fields.withDefault "parameters" [] (list (pair string (list Value.decode))) }

/-- The reader of reactors; only the name has to be given. -/
def Reactor.decode : Decoder Reactor := fun levels j => do
  let fields ← record
    ["name", "is_main", "is_federated", "preambles", "parameters", "state_vars", "ports", "actions",
     "timers", "reactions", "instantiations"] levels j
  return {
    name := ← fields.required "name" string
    isMain := ← fields.withDefault "is_main" false bool
    isFederated := ← fields.withDefault "is_federated" false bool
    preambles := ← fields.withDefault "preambles" [] (list string)
    parameters := ← fields.withDefault "parameters" [] (list Parameter.decode)
    stateVars := ← fields.withDefault "state_vars" [] (list StateVar.decode)
    ports := ← fields.withDefault "ports" [] (list Port.decode)
    actions := ← fields.withDefault "actions" [] (list Action.decode)
    timers := ← fields.withDefault "timers" [] (list Timer.decode)
    reactions := ← fields.withDefault "reactions" [] (list Reaction.decode)
    instantiations := ← fields.withDefault "instantiations" [] (list Instantiation.decode) }

/-! ## Programs, options and keys -/

namespace Program

/-- The reader of programs; the list of reactors has to be given. -/
def decode : Decoder Program := fun levels j => do
  let fields ← record ["reactors"] levels j
  return { reactors := ← fields.required "reactors" (list Reactor.decode) }

/-- The program that a JSON text holds. -/
def ofText? (text : String) : Option Program := (Json.read? text).bind (decode nestingLimit)

/-- The JSON text of a program. -/
def toText (p : Program) : String := p.encode.print

end Program

namespace Options

/-- The reader of generation options; each has its default unless given. -/
def decode : Decoder Options := fun levels j => do
  let fields ← record ["indent_width", "delay_class_marker", "class_comments"] levels j
  let default : Options := {}
  return {
    indentWidth := ← fields.withDefault "indent_width" default.indentWidth (nat UInt64.size)
    delayMarker := ← fields.withDefault "delay_class_marker" default.delayMarker string
    classComments := ← fields.withDefault "class_comments" default.classComments bool }

/-- The options that a JSON text holds. -/
def ofText? (text : String) : Option Options := (Json.read? text).bind (decode nestingLimit)

end Options

/-- The reader of reaction keys, two positions of 32 bits. -/
def ReactionKey.decode : Decoder ReactionKey := fun levels j => do
  let fields ← record ["reactor", "index"] levels j
  return {
    reactor := ← fields.required "reactor" (nat UInt32.size)
    index := ← fields.required "index" (nat UInt32.size) }

end ReactorSynth
