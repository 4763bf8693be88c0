import ReactorSynth.InstanceTree.Elaborate

/-!
# The arena of instances

Elaboration as a run over an arena. An instance is pushed when it is met: it goes into the next
slot, and its number is added to the children that its parent stores. Everything below it is pushed
before its next sibling, and the members of a bank are gone through one by one. When an error comes
up, what has been pushed is given up.
-/

namespace ReactorSynth

/-- A stored instance, with the numbers of its children. -/
structure Entry extends Instance where
  children : List Nat
  deriving DecidableEq, Repr, Inhabited

/-- The instances met so far, each in the slot of its number; the root is in slot 0. -/
abbrev Arena := List Entry

/-- The entry with further children. -/
def Entry.adopt (e : Entry) (ids : List Nat) : Entry := { e with children := e.children ++ ids }

/-- Put an instance into the next slot, as the last child of its parent. -/
def Arena.push (a : Arena) (site : Site) (parent : Option Nat) : Arena :=
  let extended := a ++ [⟨⟨site, a.length, parent⟩, []⟩]
  match parent with
  | none => extended
  | some q => extended.modify q (·.adopt [a.length])

/-- The arena of a tree. -/
def InstanceTree.arena (t : InstanceTree) : Arena :=
  t.instances.map fun i => ⟨i, t.childIds i.id⟩

namespace Program

/-- The reactor of the instance in a slot. -/
def reactorAt? (p : Program) (a : Arena) (id : Nat) : Option Reactor :=
  a[id]?.bind fun e => p.reactor? e.reactor

/-- Push an instance, and then what `below` pushes below it. -/
def pushWith (below : Arena → Nat → Except GenError Arena) (parent : Nat) (a : Arena)
    (site : Site) : Except GenError Arena :=
  below (a.push site (some parent)) a.length

/-- Push the instances of one instantiation. -/
def pushOne (p : Program) (below : Arena → Nat → Except GenError Arena) (enclosing : Reactor)
    (parent : Nat) (a : Arena) (i : Instantiation) : Except GenError Arena :=
  match p.reactorId? i.reactorClass with
  | none => .error (.unknownReactor i.reactorClass)
  | some reactor =>
    match i.width with
    | none => pushWith below parent a ⟨i.name, reactor, none⟩
    | some width => do
      let count ← i.resolveWidth enclosing width
      (List.range count).foldlM (fun a k => pushWith below parent a ⟨i.name, reactor, some k⟩) a

/-- Push all instances below the one in a slot, when `remaining` levels may follow. -/
def pushBelow (p : Program) : (remaining : Nat) → Arena → Nat → Except GenError Arena
  | 0, a, id =>
    match p.reactorAt? a id with
    | none => .ok a
    | some r => if r.instantiations.isEmpty then .ok a else .error (.tooDeep r.name depthLimit)
  | remaining + 1, a, id =>
    match p.reactorAt? a id with
    | none => .ok a
    | some r => r.instantiations.foldlM (p.pushOne (p.pushBelow remaining) r id) a

/-- The arena of the instances from the reactor at a position on, the root pushed first. -/
def arenaFrom (p : Program) (top : Nat) : Except GenError Arena :=
  match p.reactor? top with
  | none => .error .noMainReactor
  | some r => p.pushBelow depthLimit (Arena.push [] ⟨Text.lowercase r.name, top, none⟩ none) 0

end Program

end ReactorSynth
