import ReactorSynth.Code
import ReactorSynth.GenError
import ReactorSynth.Options
import ReactorSynth.Program

/-!
# Class emitters

What a class consists of is common to all targets: a header, and one level deeper a preamble, a
constructor, getters and reactions, in this order, then an empty line. An emitter says how each of
these blocks is written. A block that fails keeps what was written before the failure in the
builder; the class as a whole then has no text.
-/

namespace ReactorSynth

/-- What an emitter may consult about the class it writes: the reactor, its position in the program,
and everything around it. -/
structure ClassContext where
  program : Program
  id : Nat
  reactor : Reactor
  options : Options

/-- Writing code. -/
abbrev WriteM := StateM CodeBuilder

/-- Writing code that may turn out not to exist. -/
abbrev EmitM := ExceptT GenError WriteM

/-- The syntax of a target for a reactor class. -/
structure ClassEmitter where
  header : ClassContext → WriteM Unit
  preamble : ClassContext → WriteM Unit
  constructor : ClassContext → EmitM Unit
  getters : ClassContext → WriteM Unit
  /-- The given reactions, each with its position in the reactor. -/
  reactions : ClassContext → List (Nat × Reaction) → EmitM Unit

namespace ClassEmitter

/-- Write a class with the given reactions. -/
def emit (e : ClassEmitter) (ctx : ClassContext) (reactions : List (Nat × Reaction)) :
    EmitM Unit := do
  e.header ctx
  modify CodeBuilder.indent
  e.preamble ctx
  e.constructor ctx
  e.getters ctx
  e.reactions ctx reactions
  modify CodeBuilder.unindent
  modify CodeBuilder.blank

/-- The text of a class with the given reactions. -/
def classText (e : ClassEmitter) (ctx : ClassContext) (reactions : List (Nat × Reaction)) :
    Except GenError String :=
  let (outcome, builder) := (e.emit ctx reactions).run.run {}
  outcome.map fun _ => builder.render ctx.options.indentWidth

end ClassEmitter

end ReactorSynth
