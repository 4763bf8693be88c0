import ReactorSynth.Digest.Sha256
import ReactorSynth.Expansion

/-!
# Generation

The classes of every federate of a program. Each federate is expanded from no classes written, and
what comes of it is added to a result: its classes, with a fingerprint of their text, or a
diagnostic about it.
-/

namespace ReactorSynth

/-- The SHA-256 digest of the UTF-8 form of a text, in hexadecimal. -/
def fingerprint (text : String) : String := Sha256.hexDigest text.toUTF8.toList

/-- The classes of one federate. -/
structure FederateClasses where
  federate : String
  source : String
  classNames : List String
  fingerprint : String
  deriving DecidableEq, Repr, Inhabited

/-- The classes of the federates that have them, the diagnostics of the others, and whether there
are others. -/
@[ext]
structure GenerationResult where
  federates : List FederateClasses := []
  diagnostics : List Diagnostic := []
  hasError : Bool := false
  deriving DecidableEq, Repr, Inhabited

namespace GenerationResult

/-- The classes of the first federate of a name. -/
def federate? (r : GenerationResult) (name : String) : Option FederateClasses :=
  r.federates.find? (·.federate == name)

/-- Add what the expansion of a federate came to: its classes with their fingerprint, or a
diagnostic about it. -/
def add (r : GenerationResult) (f : Federate) (expanded : Except GenError ExpandedClasses) :
    GenerationResult :=
  match expanded with
  | .ok classes =>
    { r with federates := r.federates ++
        [⟨f.name, classes.source, classes.classNames, fingerprint classes.source⟩] }
  | .error e =>
    { r with
      hasError := true
      diagnostics := r.diagnostics ++ [e.toDiagnostic.withSubject f.name] }

end GenerationResult

/-- Generate the classes of every federate, one after the other. -/
def generate (program : Program) (tree : InstanceTree) (federates : List Federate)
    (emitter : ClassEmitter) (options : Options) : GenerationResult :=
  federates.foldl
    (fun r f => r.add f (Expansion.expandClasses ⟨program, tree, f, emitter, options⟩)) {}

/-- Generate the classes of a program with a single federate. -/
def generateUnfederated (program : Program) (tree : InstanceTree) (emitter : ClassEmitter)
    (options : Options) : GenerationResult :=
  generate program tree [FederateLayout.unfederated.toFederate] emitter options

end ReactorSynth
