import ReactorSynth.ClassEmitter
import ReactorSynth.Reference
import ReactorSynth.Target
import ReactorSynth.Text.Dedent

/-!
# Python classes

A reactor becomes a Python class `_Name`. Its constructor sets the parameters, lets keyword
arguments override them, and then sets the state variables; each parameter has a read-only property;
each reaction is a method `reaction_function_i`, which takes the variables and containers that its
references name, each once, in the order triggers, sources, effects.

Preambles and reaction bodies lose their own indentation and take that of their place. A reaction
fails when a reference does not resolve or an effect is a timer.
-/

namespace ReactorSynth.PythonClass

open Text

/-! ## Blocks -/

/-- The class line, with a comment above it if the options ask for one. -/
def headerCode (ctx : ClassContext) : Code :=
  let comment := Code.ofText ("# Python class for reactor " ++ ctx.reactor.name)
  let opening := Code.ofText ("class _" ++ ctx.reactor.name ++ ":")
  if ctx.options.classComments then comment ++ opening else opening

/-- The preambles, one after the other. -/
def preambleCode (r : Reactor) : Code :=
  r.preambles.flatMap fun preamble => Code.ofText (dedent preamble)

/-- The assignment of a parameter's default. -/
def parameterCode (r : Reactor) (p : Parameter) : Code :=
  Code.ofText ("self._" ++ p.name ++ " = " ++
    Target.python.initializer (p.inferredType r.parameters) p.init)

/-- The assignment of a state variable's initial value. -/
def stateVarCode (r : Reactor) (s : StateVar) : Code :=
  Code.ofText ("self." ++ s.name ++ " = " ++
    Target.python.initializer (s.inferredType r.parameters) s.init)

/-- The lines for some declarations under a comment; nothing if there are none. -/
def commented {α : Type} (comment : String) (code : α → Code) (declarations : List α) : Code :=
  if declarations.isEmpty then [] else Code.ofText comment ++ declarations.flatMap code

/-- The constructor. -/
def constructorCode (r : Reactor) : Code :=
  Code.ofText "def __init__(self, **kwargs):" ++
    Code.nest 1
      (commented "# Define parameters and their default values" (parameterCode r) r.parameters ++
        Code.ofText "# Handle parameters that are set in instantiation" ++
        Code.ofText "self.__dict__.update(kwargs)" ++
        commented "# Define state variables" (stateVarCode r) r.stateVars)

/-- The property of a parameter. -/
def getterCode (p : Parameter) : Code :=
  Code.blank ++ Code.ofText "@property" ++ Code.ofText ("def " ++ p.name ++ "(self):") ++
    Code.nest 1 (Code.ofText ("return self._" ++ p.name))

/-- The properties of all parameters. -/
def gettersCode (r : Reactor) : Code := r.parameters.flatMap getterCode

/-! ## Reactions -/

/-- The references of a reaction, each resolved. -/
structure ResolvedReaction where
  triggers : List ResolvedRef
  sources : List ResolvedRef
  effects : List ResolvedRef

/-- Resolve the references of a reaction; the first failure in the order triggers, sources, effects
counts. -/
def resolveReaction (ctx : ClassContext) (reaction : Reaction) :
    Except GenError ResolvedReaction := do
  let triggers ← reaction.triggers.mapM (·.resolve ctx.program ctx.reactor)
  let sources ← reaction.sources.mapM (·.resolve ctx.program ctx.reactor)
  let effects ← reaction.effects.mapM (·.resolve ctx.program ctx.reactor)
  return ⟨triggers, sources, effects⟩

/-- The names that a reaction method takes besides `self`. -/
def ResolvedReaction.arguments (r : ResolvedReaction) : List String :=
  ((r.triggers ++ r.sources ++ r.effects).filterMap (·.argument?)).eraseDups

/-- The line that opens the method of a reaction. -/
def signature (index : Nat) (arguments : List String) : String :=
  "def reaction_function_" ++ toString index ++ "(self" ++
    String.join (arguments.map (", " ++ ·)) ++ "):"

/-- The comment that lists the effects of a reaction; nothing if there are none. -/
def effectsCode (effects : List String) : Code :=
  if effects.isEmpty then [] else Code.ofText ("# effects: " ++ ", ".intercalate effects)

/-- The comment with the label of a reaction, if it has one. -/
def labelCode (label : Option String) : Code :=
  match label with
  | none => []
  | some label => Code.ofText ("# " ++ label)

/-- The method of the reaction at a position. -/
def reactionCode (ctx : ClassContext) (index : Nat) (reaction : Reaction) :
    Except GenError Code := do
  let resolved ← resolveReaction ctx reaction
  let effects ← resolved.effects.mapM (·.effectText)
  return Code.ofText (signature index resolved.arguments) ++
    Code.nest 1
      (labelCode reaction.label ++ effectsCode effects ++ Code.ofText (dedent reaction.code) ++
        Code.ofText "return 0")

/-- Write an empty line and then the method of the reaction at a position. -/
def writeReaction (ctx : ClassContext) (index : Nat) (reaction : Reaction) : EmitM Unit := do
  modify CodeBuilder.blank
  let code ← reactionCode ctx index reaction
  modify (·.write code)

/-- Write the methods of some reactions, up to the first that fails. -/
def writeReactions (ctx : ClassContext) : List (Nat × Reaction) → EmitM Unit
  | [] => return
  | (index, reaction) :: rest => do
    writeReaction ctx index reaction
    writeReactions ctx rest

/-- The emitter of Python classes. -/
def emitter : ClassEmitter where
  header ctx := modify (·.write (headerCode ctx))
  preamble ctx := modify (·.write (preambleCode ctx.reactor))
  constructor ctx := modify (·.write (constructorCode ctx.reactor))
  getters ctx := modify (·.write (gettersCode ctx.reactor))
  reactions := writeReactions

end ReactorSynth.PythonClass
