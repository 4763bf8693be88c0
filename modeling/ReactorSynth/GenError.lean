import ReactorSynth.Diagnostic

/-!
# Causes of failure

Everything that can go wrong between a program and its generated classes. Each cause has a fixed
code and message; four of them also name a subject and hint at a remedy.
-/

namespace ReactorSynth

/-- Why a program has no instance tree or a reactor no class. -/
inductive GenError where
  /-- A port was required and the reference names something else. -/
  | notAPort (reference found : String)
  /-- A reactor has no variable of that name. -/
  | unresolvedVariable (name reactor : String)
  /-- The program has no reactor class of that name. -/
  | unknownReactor (name : String)
  /-- A reactor has no instantiation of that name. -/
  | unknownContainer (container reactor : String)
  /-- A width names a parameter without a usable default. -/
  | unresolvedWidth (instantiation parameter : String)
  /-- A width exceeds 32 bits. -/
  | widthOverflow (instantiation : String)
  /-- Instantiations nest beyond the limit. -/
  | tooDeep (reactor : String) (limit : Nat)
  /-- No reactor is the main one. -/
  | noMainReactor
  deriving DecidableEq, Repr, Inhabited

namespace GenError

/-- The message of a failure. -/
def message : GenError → String
  | notAPort reference found => "'" ++ reference ++ "' refers to " ++ found ++ ", not a port"
  | unresolvedVariable name reactor =>
    "no variable named '" ++ name ++ "' in reactor '" ++ reactor ++ "'"
  | unknownReactor name => "no reactor class named '" ++ name ++ "'"
  | unknownContainer container reactor =>
    "no instantiation named '" ++ container ++ "' in reactor '" ++ reactor ++ "'"
  | unresolvedWidth instantiation parameter =>
    "cannot resolve width of '" ++ instantiation ++ "': parameter '" ++ parameter ++
      "' has no integer default"
  | widthOverflow instantiation => "width of '" ++ instantiation ++ "' overflows 32 bits"
  | tooDeep reactor limit =>
    "instantiation of '" ++ reactor ++ "' nested deeper than " ++ toString limit ++ " levels"
  | noMainReactor => "program has no main reactor"

/-- The stable code of a failure. -/
def code : GenError → String
  | notAPort .. => "E0101"
  | unresolvedVariable .. => "E0102"
  | unknownReactor .. => "E0103"
  | unknownContainer .. => "E0104"
  | unresolvedWidth .. => "E0105"
  | tooDeep .. => "E0106"
  | noMainReactor => "E0107"
  | widthOverflow .. => "E0108"

/-- What the failure is about, where its message alone does not place it. -/
def subject : GenError → Option String
  | notAPort reference _ => some reference
  | unresolvedWidth instantiation _ => some instantiation
  | widthOverflow instantiation => some instantiation
  | tooDeep reactor _ => some reactor
  | _ => none

/-- How the failure can be avoided. -/
def hint : GenError → Option String
  | notAPort .. => some "only ports may be indexed or written as reaction effects"
  | unresolvedWidth .. => some "give the width parameter a single integer default"
  | widthOverflow .. => some "bank widths must fit in 32 bits"
  | tooDeep .. => some "instantiation must not be recursive"
  | _ => none

/-- The failure as an error diagnostic. -/
def toDiagnostic (e : GenError) : Diagnostic where
  severity := .error
  message := e.message
  code := some e.code
  hint := e.hint
  subject := e.subject

end GenError

end ReactorSynth
