import ReactorSynth.GenError
import ReactorSynth.InstanceTree
import ReactorSynth.Program
import ReactorSynth.Text.Lowercase

/-!
# Elaboration

A program is unfolded into an instance tree from one of its reactors. A bank becomes one instance
for each of its members, so a bank of width zero leaves nothing; its class must still exist and
its width must still resolve. Instantiations nest at most `depthLimit` levels below the root,
which also ends recursive instantiation.

Of several failures the first in depth-first declaration order counts. A reactor that may not
instantiate anything any more fails before its instantiations are looked at, and the class of an
instantiation is looked up before its width.
-/

namespace ReactorSynth

/-! ## Widths -/

/-- Widths and their sums are below this bound. -/
def widthBound : Nat := UInt32.size

/-- The width that a parameter's default text gives: decimal ASCII digits between white space, with
a plus sign allowed in front, below the bound. -/
def widthOfText? (text : String) : Option Nat :=
  let cs := Text.trimList text.toList
  let digits := match cs with
    | '+' :: rest => rest
    | cs => cs
  if !digits.isEmpty && digits.all Text.isAsciiDigit && Text.decimalValue digits < widthBound then
    some (Text.decimalValue digits)
  else none

namespace Reactor

/-- The width that a parameter stands for: its default is a single literal that gives one. -/
def parameterWidth? (r : Reactor) (name : String) : Option Nat :=
  match r.parameterNamed? name with
  | none => none
  | some p =>
    match p.init with
    | [.literal text] => widthOfText? text
    | _ => none

end Reactor

namespace Instantiation

/-- The value of a term of a width. -/
def termWidth (i : Instantiation) (enclosing : Reactor) : WidthTerm → Except GenError Nat
  | .literal width => .ok width.toNat
  | .parameter name =>
    match enclosing.parameterWidth? name with
    | none => .error (.unresolvedWidth i.name name)
    | some width => .ok width

/-- The sum of width terms on top of `total`, which fails at the first term that is unusable or
takes the sum to the bound. -/
def sumWidth (i : Instantiation) (enclosing : Reactor) (total : Nat) :
    List WidthTerm → Except GenError Nat
  | [] => .ok total
  | term :: rest =>
    match i.termWidth enclosing term with
    | .error e => .error e
    | .ok width =>
      if total + width < widthBound then i.sumWidth enclosing (total + width) rest
      else .error (.widthOverflow i.name)

/-- The number of members of a bank. -/
def resolveWidth (i : Instantiation) (enclosing : Reactor) (width : Width) : Except GenError Nat :=
  i.sumWidth enclosing 0 width.terms

/-- The number of members of an instantiation that is a bank; `none` for any other. -/
def memberCount (i : Instantiation) (enclosing : Reactor) : Except GenError (Option Nat) :=
  match i.width with
  | none => .ok none
  | some width => (i.resolveWidth enclosing width).map some

end Instantiation

/-! ## Unfolding -/

namespace Program

/-- Instantiations nest at most this many levels below the root. -/
def depthLimit : Nat := 64

/-- The instances of one instantiation, given what lies below an instance of each reactor. -/
def placeOne (p : Program) (below : Nat → Except GenError (Forest Site)) (enclosing : Reactor)
    (i : Instantiation) : Except GenError (Forest Site) :=
  match p.reactorId? i.reactorClass with
  | none => .error (.unknownReactor i.reactorClass)
  | some reactor => do
    match ← i.memberCount enclosing with
    | none =>
      let inner ← below reactor
      return .cons ⟨i.name, reactor, none⟩ inner .nil
    | some 0 => return .nil
    | some count =>
      let inner ← below reactor
      return .replicate inner ((List.range count).map fun k => ⟨i.name, reactor, some k⟩)

/-- The instances of a list of instantiations, in order. -/
def placeAll (p : Program) (below : Nat → Except GenError (Forest Site)) (enclosing : Reactor) :
    List Instantiation → Except GenError (Forest Site)
  | [] => .ok .nil
  | i :: rest => do
    let first ← p.placeOne below enclosing i
    let others ← p.placeAll below enclosing rest
    return first.append others

/-- The instances below an instance of the reactor at a position, when `remaining` levels may
follow. -/
def unfold (p : Program) : (remaining : Nat) → Nat → Except GenError (Forest Site)
  | 0, id =>
    match p.reactor? id with
    | none => .ok .nil
    | some r => if r.instantiations.isEmpty then .ok .nil else .error (.tooDeep r.name depthLimit)
  | remaining + 1, id =>
    match p.reactor? id with
    | none => .ok .nil
    | some r => p.placeAll (p.unfold remaining) r r.instantiations

/-- The instance tree with an instance of the reactor at a position as its root, named by the
reactor's name in lower case. Without a reactor there, there is nothing to start from. -/
def elaborateFrom (p : Program) (top : Nat) : Except GenError InstanceTree :=
  match p.reactor? top with
  | none => .error .noMainReactor
  | some r => do
    let below ← p.unfold depthLimit top
    return .ofSites ⟨Text.lowercase r.name, top, none⟩ below

/-- The instance tree of the main reactor. -/
def elaborate (p : Program) : Except GenError InstanceTree :=
  match p.mainId? with
  | none => .error .noMainReactor
  | some main => p.elaborateFrom main

end Program

end ReactorSynth
