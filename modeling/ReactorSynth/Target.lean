import ReactorSynth.Typing

/-!
# Targets

How a target language spells types, times, parameter references and initial values. There are
three targets: Python, which writes no types; C++ inside a reactor class; and C++ in the outer
class, which differs from it only in reaching parameters through the inner instance.

Common to all targets: a time is spelled by the target, a parameter becomes a reference to it, a
zero numeral where a time is expected becomes the zero time, and any other text is passed through
with the zero in front of a leading point written out.
-/

namespace ReactorSynth

/-- A target language, with the place in it for which text is written. -/
inductive Target where
  | python
  | cpp
  | cppOuter
  deriving DecidableEq, Repr, Inhabited

/-- How an initial value was written: assigned, in braces, or in parentheses. -/
inductive InitForm where
  | assign
  | braces
  | parens
  deriving DecidableEq, Repr, Inhabited

namespace Target

/-! ## Times in C++ -/

/-- The suffix of a chrono literal in C++; a week is written as seven days. -/
def chronoSuffix : TimeUnit → String
  | .none => ""
  | .nsec => "ns"
  | .usec => "us"
  | .msec => "ms"
  | .sec => "s"
  | .min => "min"
  | .hour => "h"
  | .day => "d"
  | .week => "d*7"

/-- A time in C++; every zero is the same one. -/
def cppTime (t : TimeValue) : String :=
  if t.isZero then "reactor::Duration::zero()" else t.magnitudeText ++ chronoSuffix t.unit

/-! ## Vocabulary -/

/-- What a target language supplies. Unless it says otherwise, a time is a call of a unit function
and a parameter is referred to by its name. -/
structure Vocabulary where
  /-- Whether the target has generic types. -/
  supportsGenerics : Bool
  timeType : String
  tagType : String
  /-- What stands for a type that is not known. -/
  undefinedType : String
  fixedListType (base : String) (size : UInt64) : String
  variableListType (base : String) : String
  timeExpr (t : TimeValue) : String := t.lowered
  /-- A reference to a parameter of the enclosing reactor. -/
  paramRef (name : String) : String := name
  /-- The initial value of a declaration without one. -/
  missingExpr (type : InferredType) : String

/-- Python writes no types. -/
def pythonVocabulary : Vocabulary where
  supportsGenerics := false
  timeType := ""
  tagType := ""
  undefinedType := ""
  fixedListType _ _ := ""
  variableListType _ := ""
  paramRef name := "self._" ++ name
  missingExpr _ := "None"

def cppVocabulary : Vocabulary where
  supportsGenerics := true
  timeType := "reactor::Duration"
  tagType := "reactor::Tag"
  undefinedType := "void"
  fixedListType base size := "std::array<" ++ base ++ ", " ++ toString size.toNat ++ ">"
  variableListType base := "std::vector<" ++ base ++ ">"
  timeExpr := cppTime
  missingExpr type := if type.isTime then cppTime .zero else "\x7b\x7d"

/-- The outer class has the vocabulary of the inner one but for its references to parameters. -/
def cppOuterVocabulary : Vocabulary :=
  { cppVocabulary with paramRef := fun name => "__lf_inner." ++ name }

def vocabulary : Target → Vocabulary
  | python => pythonVocabulary
  | cpp => cppVocabulary
  | cppOuter => cppOuterVocabulary

def supportsGenerics (target : Target) : Bool := target.vocabulary.supportsGenerics

def timeType (target : Target) : String := target.vocabulary.timeType

def tagType (target : Target) : String := target.vocabulary.tagType

def undefinedType (target : Target) : String := target.vocabulary.undefinedType

def fixedListType (target : Target) (base : String) (size : UInt64) : String :=
  target.vocabulary.fixedListType base size

def variableListType (target : Target) (base : String) : String :=
  target.vocabulary.variableListType base

def paramRef (target : Target) (name : String) : String := target.vocabulary.paramRef name

def timeExpr (target : Target) (t : TimeValue) : String := target.vocabulary.timeExpr t

def missingExpr (target : Target) (type : InferredType) : String :=
  target.vocabulary.missingExpr type

/-! ## Types -/

/-- A declared type; code is passed through. -/
def dataType (target : Target) : DataType → String
  | .time => target.timeType
  | .code text => text
  | .list element none => target.variableListType (target.dataType element)
  | .list element (some size) => target.fixedListType (target.dataType element) size

/-- The type of a declaration. -/
def typeExpr (target : Target) : InferredType → String
  | .explicit type => target.dataType type
  | .time => target.timeType
  | .timeList => target.variableListType target.timeType
  | .undefined => target.undefinedType

/-! ## Values -/

/-- One initial value of a declaration of the given type. -/
def valueExpr (target : Target) (type : InferredType) : Value → String
  | .time t => target.timeExpr t
  | .parameter name => target.paramRef name
  | .literal text =>
    if type.isTimeLike && isZeroNumeral text then target.timeExpr .zero else spellLeadingZero text

/-- Values of one type with commas between them. -/
def itemsExpr (target : Target) (type : InferredType) (values : List Value) : String :=
  ", ".intercalate (values.map (target.valueExpr type))

/-- An initializer in C++ that stands alone. Several values are a constructor call with items of the
element type. -/
def standaloneInitializer (target : Target) (type : InferredType) (init : List Value) : String :=
  match init with
  | [] => target.missingExpr type
  | [value] => target.valueExpr type value
  | values => target.typeExpr type ++ "\x7b" ++ target.itemsExpr type.element values ++ "\x7d"

/-- An initializer that stands alone. Several values are a list in Python. -/
def initializer (target : Target) (type : InferredType) (init : List Value) : String :=
  match target, init with
  | python, [] => python.missingExpr type
  | python, [value] => python.valueExpr type value
  | python, values => "[" ++ python.itemsExpr type values ++ "]"
  | cpp, init => cpp.standaloneInitializer type init
  | cppOuter, init => cppOuter.standaloneInitializer type init

/-- An initializer behind the name of the member that it initializes. A single assigned value is put
in parentheses; lists keep their delimiters and have items of the element type. -/
def memberInitializer (target : Target) (type : InferredType) (form : InitForm)
    (init : List Value) : String :=
  match form, init with
  | _, [] => target.missingExpr type
  | .assign, [value] => "(" ++ target.valueExpr type value ++ ")"
  | .parens, values => "(" ++ target.itemsExpr type.element values ++ ")"
  | _, values => "\x7b" ++ target.itemsExpr type.element values ++ "\x7d"

end Target

end ReactorSynth
