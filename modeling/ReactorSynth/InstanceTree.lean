import ReactorSynth.Forest

/-!
# Instance trees

The instances of a program below one top-level reactor. Instances are numbered depth first, from
zero for the root, and each knows its parent's number. The children of an instance stand in
declaration order, the members of a bank in index order.

An instance has a full name, the dotted path from the root with bank indices in brackets, and every
instance but the root has a top-level ancestor, the child of the root that it lies at or below.
-/

namespace ReactorSynth

/-- What an instantiation says of an instance: its name, the position of its reactor in the program,
and its index if it is a member of a bank. -/
structure Site where
  name : String
  reactor : Nat
  bankIndex : Option Nat
  deriving DecidableEq, Repr, Inhabited

/-- The site as one segment of a full name. -/
def Site.segment (s : Site) : String :=
  match s.bankIndex with
  | none => s.name
  | some index => s.name ++ "[" ++ toString index ++ "]"

/-- A numbered instance; only the root has no parent. -/
structure Instance extends Site where
  id : Nat
  parent : Option Nat
  deriving DecidableEq, Repr, Inhabited

/-- An instance with all instances below it. -/
structure InstanceTree where
  root : Instance
  children : Forest Instance
  deriving DecidableEq, Repr, Inhabited

/-- A forest of sites as instances below `parent`, numbered depth first from `next` on. -/
def Forest.number (parent next : Nat) : Forest Site → Forest Instance
  | nil => nil
  | cons site below after =>
    cons { site with id := next, parent := some parent } (below.number next (next + 1))
      (after.number parent (next + 1 + below.size))

namespace InstanceTree

/-- The tree with a given root site and given sites below it. -/
def ofSites (root : Site) (below : Forest Site) : InstanceTree :=
  ⟨{ root with id := 0, parent := none }, below.number 0 1⟩

/-- The instances, depth first; an instance stands at the place of its number. -/
def instances (t : InstanceTree) : List Instance := t.root :: t.children.preorder

/-- The number of instances. -/
def size (t : InstanceTree) : Nat := t.children.size + 1

/-- The instance of a number. -/
def get? (t : InstanceTree) (id : Nat) : Option Instance := t.instances[id]?

/-- The instance of a number with all instances below it. -/
def subtree? (t : InstanceTree) (id : Nat) : Option InstanceTree :=
  if t.root.id == id then some t
  else (t.children.find? (·.id == id)).map fun (root, children) => ⟨root, children⟩

/-- The numbers of the direct children of an instance. -/
def childIds (t : InstanceTree) (id : Nat) : List Nat :=
  match t.subtree? id with
  | none => []
  | some subtree => subtree.children.tops.map (·.id)

/-- The instances from the root down to the one of a number; empty if there is none. -/
def path (t : InstanceTree) (id : Nat) : List Instance :=
  if t.root.id == id then [t.root]
  else match t.children.path (·.id == id) with
    | [] => []
    | rest => t.root :: rest

/-- The child of the root at or above the instance of a number; the root has none. -/
def topLevelAncestor? (t : InstanceTree) (id : Nat) : Option Instance := (t.path id)[1]?

/-- The dotted path from the root, with bank indices in brackets. -/
def fullName (t : InstanceTree) (id : Nat) : String :=
  ".".intercalate ((t.path id).map (·.segment))

/-! ## Lemmas -/

@[simp] theorem length_instances (t : InstanceTree) : t.instances.length = t.size := by
  simp [instances, size]

end InstanceTree

@[simp] theorem Forest.size_number (f : Forest Site) (parent next : Nat) :
    (f.number parent next).size = f.size := by
  induction f generalizing parent next with
  | nil => rfl
  | cons top below after ihb iha => simp [number, size, ihb, iha]

end ReactorSynth
