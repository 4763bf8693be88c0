import ReactorSynth.Text.Blank
import ReactorSynth.Text.Lines

/-!
# Removing common indentation

`dedent` drops the blank lines at both ends of a text and takes off the white space that all its
other non-blank lines start with. The shared white space is compared character by character, so
tabs and wider blanks count only where every line has them at the same place.
-/

namespace ReactorSynth.Text

/-- The longest list that both lists start with. -/
def sharedStart : List Char → List Char → List Char
  | a :: as, b :: bs => if a = b then a :: sharedStart as bs else []
  | _, _ => []

/-- The white space that every one of the lines starts with; nothing for no lines. -/
def sharedIndent : List (List Char) → List Char
  | [] => []
  | [line] => leadingBlanks line
  | line :: rest => sharedStart (leadingBlanks line) (sharedIndent rest)

/-- The lines from the first to the last non-blank one. -/
def trimLines (lines : List (List Char)) : List (List Char) :=
  ((lines.dropWhile allBlank).reverse.dropWhile allBlank).reverse

/-- The lines of a text between its outermost non-blank ones, less their shared indentation;
blank lines in between become empty. -/
def dedentLines (lines : List (List Char)) : List (List Char) :=
  let body := trimLines lines
  let indent := sharedIndent (body.filter fun line => !allBlank line)
  body.map fun line => if allBlank line then [] else line.drop indent.length

/-- A text without the blank lines at its ends and without its shared indentation. -/
def dedent (s : String) : String :=
  "\n".intercalate ((dedentLines (linesList s.toList)).map String.ofList)

end ReactorSynth.Text
