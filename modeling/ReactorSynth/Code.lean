import ReactorSynth.Text.Blank
import ReactorSynth.Text.Lines

/-!
# Indented code

Code is a list of lines, each with its nesting level. How far a level is indented is decided only
when the code is rendered. A line of white space is kept as an empty line and never indented.

`CodeBuilder` collects code at a current level, which rises and falls one at a time and stops
at zero.
-/

namespace ReactorSynth

/-! ## Lines -/

/-- A line of code at a nesting level. -/
structure CodeLine where
  level : Nat
  text : String
  deriving DecidableEq, Repr, Inhabited

namespace CodeLine

/-- A line of the given text at level zero; white space alone makes an empty line. -/
def ofText (text : String) : CodeLine := ⟨0, if Text.allBlank text.toList then "" else text⟩

/-- The line with its line feed, each level indented by `width` spaces. -/
def render (width : Nat) (line : CodeLine) : String :=
  if line.text.isEmpty then "\n"
  else String.ofList (List.replicate (line.level * width) ' ') ++ line.text ++ "\n"

end CodeLine

/-- Lines of code, each at its level. -/
abbrev Code := List CodeLine

namespace Code

/-- The lines of a text, all at level zero. -/
def ofText (text : String) : Code := (Text.lines text).map CodeLine.ofText

/-- One empty line. -/
def blank : Code := [⟨0, ""⟩]

/-- The code some levels deeper. -/
def nest (levels : Nat) (code : Code) : Code :=
  code.map fun line => { line with level := line.level + levels }

/-- The text of the code, each level indented by `width` spaces. -/
def render (width : Nat) (code : Code) : String := String.join (code.map (·.render width))

@[simp] theorem nest_nil (levels : Nat) : nest levels [] = [] := rfl

@[simp] theorem nest_append (levels : Nat) (a b : Code) :
    nest levels (a ++ b) = nest levels a ++ nest levels b := List.map_append

@[simp] theorem nest_zero (code : Code) : nest 0 code = code := by simp [nest]

@[simp] theorem render_nil (width : Nat) : render width [] = "" := rfl

@[simp] theorem render_append (width : Nat) (a b : Code) :
    render width (a ++ b) = render width a ++ render width b := by
  simp [render]

end Code

/-! ## Builder -/

/-- Code in the making: the lines so far and the level at which the next ones go. -/
structure CodeBuilder where
  level : Nat := 0
  lines : Code := []
  deriving DecidableEq, Repr, Inhabited

namespace CodeBuilder

/-- The builder one level deeper. -/
def indent (b : CodeBuilder) : CodeBuilder := { b with level := b.level + 1 }

/-- The builder one level up, if there is one. -/
def unindent (b : CodeBuilder) : CodeBuilder := { b with level := b.level - 1 }

/-- The builder with code added at its level. -/
def write (b : CodeBuilder) (code : Code) : CodeBuilder :=
  { b with lines := b.lines ++ code.nest b.level }

/-- The builder with the lines of a text added at its level. -/
def line (b : CodeBuilder) (text : String) : CodeBuilder := b.write (Code.ofText text)

/-- The builder with an empty line added. -/
def blank (b : CodeBuilder) : CodeBuilder := b.write Code.blank

/-- The text built so far, each level indented by `width` spaces. -/
def render (width : Nat) (b : CodeBuilder) : String := Code.render width b.lines

@[simp] theorem level_write (b : CodeBuilder) (code : Code) : (b.write code).level = b.level := rfl

theorem render_write (width : Nat) (b : CodeBuilder) (code : Code) :
    (b.write code).render width = b.render width ++ Code.render width (code.nest b.level) := by
  simp [render, write]

theorem write_append (b : CodeBuilder) (a c : Code) :
    b.write (a ++ c) = (b.write a).write c := by
  simp [write]

end CodeBuilder

end ReactorSynth
