/-!
# Ordered forests

An ordered forest is a row of trees, held as the label of the first tree's root, the forest below
that root, and the trees after it. Walks are depth first: a root comes before everything below it,
and that before the trees after it.
-/

namespace ReactorSynth

/-- A row of trees with labels. -/
inductive Forest (α : Type) where
  | nil
  | cons (top : α) (below after : Forest α)
  deriving DecidableEq, Repr, Inhabited

namespace Forest

variable {α β : Type}

/-- The number of labels. -/
def size : Forest α → Nat
  | nil => 0
  | cons _ below after => below.size + after.size + 1

/-- The labels, depth first. -/
def preorder : Forest α → List α
  | nil => []
  | cons top below after => top :: (below.preorder ++ after.preorder)

/-- The roots of the trees. -/
def tops : Forest α → List α
  | nil => []
  | cons top _ after => top :: after.tops

/-- One row of trees behind another. -/
def append : Forest α → Forest α → Forest α
  | nil, other => other
  | cons top below after, other => cons top below (after.append other)

/-- The same trees with other labels. -/
def map (f : α → β) : Forest α → Forest β
  | nil => nil
  | cons top below after => cons (f top) (below.map f) (after.map f)

/-- A row of trees that differ in their roots alone. -/
def replicate (below : Forest α) : List α → Forest α
  | [] => nil
  | top :: rest => cons top below (replicate below rest)

/-- The first label with a property, depth first, and the forest below it. -/
def find? (p : α → Bool) : Forest α → Option (α × Forest α)
  | nil => none
  | cons top below after =>
    if p top then some (top, below)
    else match below.find? p with
      | some found => some found
      | none => after.find? p

/-- The labels from a root down to the first label with a property; empty if there is none. -/
def path (p : α → Bool) : Forest α → List α
  | nil => []
  | cons top below after =>
    if p top then [top]
    else match below.path p with
      | [] => after.path p
      | rest => top :: rest

/-! ## Lemmas -/

@[simp] theorem length_preorder (f : Forest α) : f.preorder.length = f.size := by
  induction f with
  | nil => rfl
  | cons top below after ihb iha => simp [preorder, size, ihb, iha]

@[simp] theorem preorder_append (f g : Forest α) :
    (f.append g).preorder = f.preorder ++ g.preorder := by
  induction f with
  | nil => rfl
  | cons top below after _ iha => simp [preorder, append, iha]

@[simp] theorem tops_append (f g : Forest α) : (f.append g).tops = f.tops ++ g.tops := by
  induction f with
  | nil => rfl
  | cons top below after _ iha => simp [tops, append, iha]

@[simp] theorem tops_replicate (below : Forest α) (labels : List α) :
    (replicate below labels).tops = labels := by
  induction labels with
  | nil => rfl
  | cons top rest ih => simp [replicate, tops, ih]

end Forest

end ReactorSynth
