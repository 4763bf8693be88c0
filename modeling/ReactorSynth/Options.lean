/-!
# Generation options

How generated classes look, and which classes are left to the runtime: a class whose name contains
the delay marker stands for a synthesized delay and is never generated. The empty marker marks
nothing.
-/

namespace ReactorSynth

/-- Choices for the text of generated classes. -/
structure Options where
  /-- Spaces for each level of indentation. -/
  indentWidth : Nat := 4
  /-- The text that the names of delay classes contain. -/
  delayMarker : String := "_lf_GenDelay"
  /-- Whether a comment line precedes each class. -/
  classComments : Bool := true
  deriving DecidableEq, Repr, Inhabited

/-- Whether a text contains another one somewhere. -/
def containsText (part : List Char) : List Char → Bool
  | [] => part.isEmpty
  | c :: rest => part.isPrefixOf (c :: rest) || containsText part rest

/-- Whether a class name marks a delay class. -/
def Options.isDelayClass (options : Options) (name : String) : Bool :=
  !options.delayMarker.isEmpty && containsText options.delayMarker.toList name.toList

end ReactorSynth
