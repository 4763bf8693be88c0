import Mathlib.Logic.Relation
import ReactorSynth.InstanceTree
import ReactorSynth.Proofs.Subtrees

/-!
# Depth-first numbers

`Numbered` is what numbering leaves behind in a forest of instances: consecutive numbers in depth
first order, and in each instance below another one the number of that one as its parent. The rest
of the module reads the tree off the numbers:

* `Numbered.ids_subtrees`: an instance stands at the place of its number.
* `Numbered.mem_preorder_of_parent`: whoever has a parent in some subtree is in that subtree.
* **`InstanceTree.Numbered.isBelow_iff`**: the instances below one are those of the next numbers,
  as many as its subtree holds.
* `InstanceTree.Numbered.subtree?_eq_some_iff`: look-ups by number find the only subtree of that
  number.
-/

namespace ReactorSynth

namespace Forest

/-- The instances are numbered depth first from `next` on, those of the row have the given parent,
and any other has the one that it lies directly below. -/
def Numbered : Option Nat → Nat → Forest Instance → Prop
  | _, _, nil => True
  | parent, next, cons top below after =>
    top.id = next ∧ top.parent = parent ∧ below.Numbered (some next) (next + 1) ∧
      after.Numbered parent (next + 1 + below.size)

theorem numbered_number (f : Forest Site) (parent next : Nat) :
    (f.number parent next).Numbered (some parent) next := by
  induction f generalizing parent next with
  | nil => exact trivial
  | cons top below after ihb iha =>
    refine ⟨rfl, rfl, ihb next (next + 1), ?_⟩
    rw [size_number]
    exact iha parent (next + 1 + below.size)

namespace Numbered

variable {f g : Forest Instance} {parent : Option Nat} {next : Nat} {i j : Instance}

/-! ## Places -/

/-- The roots of the subtrees, depth first, have consecutive numbers. -/
theorem ids_subtrees (h : f.Numbered parent next) :
    f.subtrees.map (fun t => t.1.id) = List.range' next f.size := by
  induction f generalizing parent next with
  | nil => rfl
  | cons top below after ihb iha =>
    obtain ⟨rfl, -, hb, ha⟩ := h
    rw [subtrees, List.map_cons, List.map_append, ihb hb, iha ha, size, List.range'_succ,
      List.range'_append_1]

theorem ids_preorder (h : f.Numbered parent next) :
    f.preorder.map (·.id) = List.range' next f.size := by
  rw [← h.ids_subtrees, ← map_fst_subtrees, List.map_map]
  rfl

theorem getElem?_subtrees {k : Nat} (h : f.Numbered parent next)
    (hk : f.subtrees[k]? = some (i, g)) : i.id = next + k := by
  have hid : (f.subtrees.map fun t => t.1.id)[k]? = some i.id := by rw [List.getElem?_map, hk]; rfl
  rw [h.ids_subtrees, List.getElem?_eq_some_iff] at hid
  obtain ⟨hlt, hid⟩ := hid
  rw [List.getElem_range'] at hid
  omega

theorem getElem?_preorder {k : Nat} (h : f.Numbered parent next)
    (hk : f.preorder[k]? = some i) : i.id = next + k := by
  rw [← map_fst_subtrees, List.getElem?_map] at hk
  obtain ⟨⟨i, g⟩, hk', rfl⟩ := Option.map_eq_some_iff.mp hk
  exact h.getElem?_subtrees hk'

/-- A number belongs to one subtree. -/
theorem subtree_unique {g' : Forest Instance} (h : f.Numbered parent next)
    (hi : (i, g) ∈ f.subtrees) (hj : (j, g') ∈ f.subtrees) (hid : i.id = j.id) :
    i = j ∧ g = g' := by
  obtain ⟨k, hk⟩ := List.getElem?_of_mem hi
  obtain ⟨k', hk'⟩ := List.getElem?_of_mem hj
  have hi' := h.getElem?_subtrees hk
  have hj' := h.getElem?_subtrees hk'
  obtain rfl : k = k' := by omega
  exact Prod.mk.inj (Option.some.inj (hk.symm.trans hk'))

theorem id_bounds (h : f.Numbered parent next) (hi : i ∈ f.preorder) :
    next ≤ i.id ∧ i.id < next + f.size := by
  have hid : i.id ∈ f.preorder.map (·.id) := List.mem_map_of_mem hi
  rw [h.ids_preorder, List.mem_range'_1] at hid
  exact hid

theorem exists_of_id (h : f.Numbered parent next) {k : Nat} (hle : next ≤ k)
    (hlt : k < next + f.size) : ∃ i ∈ f.preorder, i.id = k := by
  have hk : k ∈ f.preorder.map (·.id) := by
    rw [h.ids_preorder, List.mem_range'_1]
    exact ⟨hle, hlt⟩
  exact List.mem_map.mp hk

/-! ## Parents -/

/-- What lies below an instance is numbered on from it, within the numbers of the forest. -/
theorem subtree (h : f.Numbered parent next) (hi : (i, g) ∈ f.subtrees) :
    g.Numbered (some i.id) (i.id + 1) ∧ next ≤ i.id ∧ i.id + 1 + g.size ≤ next + f.size := by
  induction f generalizing parent next with
  | nil => exact absurd hi List.not_mem_nil
  | cons top below after ihb iha =>
    obtain ⟨htop, -, hb, ha⟩ := h
    rw [subtrees, List.mem_cons, List.mem_append] at hi
    rw [size]
    rcases hi with hi | hi | hi
    · obtain ⟨rfl, rfl⟩ := Prod.mk.inj hi
      rw [htop]
      exact ⟨hb, Nat.le_refl _, by omega⟩
    · obtain ⟨hg, hle, hlt⟩ := ihb hb hi
      exact ⟨hg, by omega, by omega⟩
    · obtain ⟨hg, hle, hlt⟩ := iha ha hi
      exact ⟨hg, by omega, by omega⟩

theorem parent_of_mem_tops (h : f.Numbered parent next) (hi : i ∈ f.tops) :
    i.parent = parent := by
  induction f generalizing next with
  | nil => exact absurd hi List.not_mem_nil
  | cons top below after _ iha =>
    obtain ⟨-, hp, -, ha⟩ := h
    rcases List.mem_cons.mp hi with rfl | hi
    · exact hp
    · exact iha ha hi

/-- An instance stands in the row, or its parent comes before it in the forest. -/
theorem parent_cases (h : f.Numbered parent next) (hi : i ∈ f.preorder) :
    (i ∈ f.tops ∧ i.parent = parent) ∨ ∃ q, i.parent = some q ∧ next ≤ q ∧ q < i.id := by
  induction f generalizing parent next with
  | nil => exact absurd hi List.not_mem_nil
  | cons top below after ihb iha =>
    obtain ⟨htop, hp, hb, ha⟩ := h
    rw [preorder, List.mem_cons, List.mem_append] at hi
    rcases hi with rfl | hi | hi
    · exact Or.inl ⟨List.mem_cons_self, hp⟩
    · have hlt := (hb.id_bounds hi).1
      rcases ihb hb hi with ⟨-, hq⟩ | ⟨q, hq, hle, hlt⟩
      · exact Or.inr ⟨next, hq, Nat.le_refl _, by omega⟩
      · exact Or.inr ⟨q, hq, by omega, hlt⟩
    · rcases iha ha hi with ⟨hmem, hq⟩ | ⟨q, hq, hle, hlt⟩
      · exact Or.inl ⟨List.mem_cons_of_mem _ hmem, hq⟩
      · exact Or.inr ⟨q, hq, by omega, hlt⟩

/-- Whoever has a parent in a subtree lies below its root. The parent of the row must come before
the row, or the row would lie below its own first instance. -/
theorem mem_preorder_of_parent {q : Nat} (h : f.Numbered parent next)
    (hparent : ∀ q, parent = some q → q < next) (hi : (i, g) ∈ f.subtrees) (hj : j ∈ f.preorder)
    (hq : j.parent = some q) (hle : i.id ≤ q) (hlt : q < i.id + 1 + g.size) : j ∈ g.preorder := by
  induction f generalizing parent next with
  | nil => exact absurd hi List.not_mem_nil
  | cons top below after ihb iha =>
    -- A parent that is not that of the row lies in the part of the forest that its child lies in.
    have hrow : parent ≠ some q := fun heq => by
      have := hparent q heq
      have := (h.subtree hi).2.1
      omega
    obtain ⟨htop, hp, hb, ha⟩ := h
    rw [subtrees, List.mem_cons, List.mem_append] at hi
    rw [preorder, List.mem_cons, List.mem_append] at hj
    rcases hj with rfl | hj | hj
    · exact absurd (hp.symm.trans hq) hrow
    · rcases hi with hi | hi | hi
      · obtain ⟨rfl, rfl⟩ := Prod.mk.inj hi
        exact hj
      · exact ihb hb (fun q heq => by rw [← Option.some.inj heq]; omega) hi hj
      · have hi' := (ha.subtree hi).2.1
        have hj' := (hb.id_bounds hj).2
        rcases hb.parent_cases hj with ⟨-, hq'⟩ | ⟨q', hq', -, hlt'⟩
        · obtain rfl := Option.some.inj (hq.symm.trans hq')
          omega
        · obtain rfl := Option.some.inj (hq.symm.trans hq')
          omega
    · rcases ha.parent_cases hj with ⟨-, hq'⟩ | ⟨q', hq', hle', -⟩
      · exact absurd (hq'.symm.trans hq) hrow
      · obtain rfl := Option.some.inj (hq.symm.trans hq')
        rcases hi with hi | hi | hi
        · obtain ⟨rfl, rfl⟩ := Prod.mk.inj hi
          omega
        · have := (hb.subtree hi).2.2
          omega
        · exact iha ha (fun q heq => by have := hparent q heq; omega) hi hj

end Numbered

end Forest

/-! ## Trees -/

namespace InstanceTree

/-- The tree as a forest of one tree. -/
def forest (t : InstanceTree) : Forest Instance := .cons t.root t.children .nil

/-- A tree numbered from zero, with a root without a parent. -/
def Numbered (t : InstanceTree) : Prop := t.forest.Numbered none 0

/-- The instance of one number is the parent of that of another. -/
def IsParent (t : InstanceTree) (q c : Nat) : Prop :=
  ∃ i ∈ t.instances, i.id = c ∧ i.parent = some q

/-- The instance of one number has that of another somewhere below it. -/
def IsBelow (t : InstanceTree) : Nat → Nat → Prop := Relation.TransGen t.IsParent

theorem numbered_ofSites (root : Site) (below : Forest Site) : (ofSites root below).Numbered :=
  ⟨rfl, rfl, Forest.numbered_number below 0 1, trivial⟩

theorem instances_eq (t : InstanceTree) : t.instances = t.forest.preorder := by
  rw [instances, forest, Forest.preorder, Forest.preorder, List.append_nil]

theorem subtree?_eq (t : InstanceTree) (id : Nat) :
    t.subtree? id = (t.forest.find? (·.id == id)).map fun (root, children) => ⟨root, children⟩ := by
  rw [subtree?, forest, Forest.find?]
  split
  · rfl
  · cases t.children.find? (·.id == id) <;> rfl

variable {t : InstanceTree}

namespace Numbered

theorem get?_eq_some_iff (h : t.Numbered) {k : Nat} {i : Instance} :
    t.get? k = some i ↔ i ∈ t.instances ∧ i.id = k := by
  rw [get?, instances_eq]
  constructor
  · intro hk
    have hid := h.getElem?_preorder hk
    exact ⟨List.mem_of_getElem? hk, by omega⟩
  · rintro ⟨hi, hid⟩
    obtain ⟨k', hk'⟩ := List.getElem?_of_mem hi
    have hid' := h.getElem?_preorder hk'
    obtain rfl : k = k' := by omega
    exact hk'

theorem get?_id (h : t.Numbered) {i : Instance} (hi : i ∈ t.instances) : t.get? i.id = some i :=
  h.get?_eq_some_iff.mpr ⟨hi, rfl⟩

/-- The subtree of a number is the only one whose root has it. -/
theorem subtree?_eq_some_iff (h : t.Numbered) {id : Nat} {s : InstanceTree} :
    t.subtree? id = some s ↔ (s.root, s.children) ∈ t.forest.subtrees ∧ s.root.id = id := by
  rw [subtree?_eq, Forest.find?_eq, Option.map_eq_some_iff]
  constructor
  · rintro ⟨⟨root, children⟩, hfind, rfl⟩
    exact ⟨List.mem_of_find?_eq_some hfind, by simpa using List.find?_some hfind⟩
  · rintro ⟨hs, hid⟩
    cases hfind : t.forest.subtrees.find? fun u => u.1.id == id with
    | none =>
      have := List.find?_eq_none.mp hfind _ hs
      exact absurd hid (by simpa using this)
    | some u =>
      obtain ⟨root, children⟩ := u
      have hu : root.id = id := by simpa using List.find?_some hfind
      obtain ⟨rfl, rfl⟩ :=
        h.subtree_unique (List.mem_of_find?_eq_some hfind) hs (hu.trans hid.symm)
      exact ⟨_, rfl, rfl⟩

theorem exists_subtree? (h : t.Numbered) {i : Instance} (hi : i ∈ t.instances) :
    ∃ s, t.subtree? i.id = some s ∧ s.root = i ∧ (i, s.children) ∈ t.forest.subtrees := by
  rw [instances_eq] at hi
  obtain ⟨g, hg⟩ := Forest.exists_mem_subtrees hi
  exact ⟨⟨i, g⟩, h.subtree?_eq_some_iff.mpr ⟨hg, rfl⟩, rfl, hg⟩

/-- The children of an instance are the row directly below it. -/
theorem childIds_eq (h : t.Numbered) {i : Instance} {g : Forest Instance}
    (hg : (i, g) ∈ t.forest.subtrees) : t.childIds i.id = g.tops.map (·.id) := by
  have hs : t.subtree? i.id = some ⟨i, g⟩ := h.subtree?_eq_some_iff.mpr ⟨hg, rfl⟩
  rw [childIds, hs]

theorem childIds_pairwise (h : t.Numbered) {i : Instance} {g : Forest Instance}
    (hg : (i, g) ∈ t.forest.subtrees) : (t.childIds i.id).Pairwise (· < ·) := by
  rw [h.childIds_eq hg]
  have hsub : (g.tops.map (·.id)).Sublist (g.preorder.map (·.id)) := g.tops_sublist_preorder.map _
  rw [(h.subtree hg).1.ids_preorder] at hsub
  exact List.Pairwise.sublist hsub List.pairwise_lt_range'

theorem mem_of_isParent (h : t.Numbered) {i j : Instance} {g : Forest Instance} {q : Nat}
    (hg : (i, g) ∈ t.forest.subtrees) (hj : j ∈ t.instances) (hq : j.parent = some q)
    (hle : i.id ≤ q) (hlt : q < i.id + 1 + g.size) : j ∈ g.preorder := by
  rw [instances_eq] at hj
  exact h.mem_preorder_of_parent (fun q heq => absurd heq (by simp)) hg hj hq hle hlt

/-- An instance stands in the row directly below its parent. -/
theorem mem_tops_of_parent (h : t.Numbered) {i j : Instance} {g : Forest Instance}
    (hg : (i, g) ∈ t.forest.subtrees) (hj : j ∈ t.instances) (hq : j.parent = some i.id) :
    j ∈ g.tops := by
  have hmem := h.mem_of_isParent hg hj hq (Nat.le_refl _) (by omega)
  rcases (h.subtree hg).1.parent_cases hmem with ⟨htop, -⟩ | ⟨q, hq', hle, -⟩
  · exact htop
  · obtain rfl := Option.some.inj (hq.symm.trans hq')
    omega

theorem mem_childIds_iff (h : t.Numbered) {i : Instance} {g : Forest Instance}
    (hg : (i, g) ∈ t.forest.subtrees) {c : Nat} : c ∈ t.childIds i.id ↔ t.IsParent i.id c := by
  obtain ⟨hnum, -, -⟩ := h.subtree hg
  rw [h.childIds_eq hg, List.mem_map]
  constructor
  · rintro ⟨j, hj, rfl⟩
    refine ⟨j, ?_, rfl, hnum.parent_of_mem_tops hj⟩
    rw [instances_eq]
    exact Forest.preorder_subset_of_mem_subtrees hg (g.tops_sublist_preorder.subset hj)
  · rintro ⟨j, hj, rfl, hq⟩
    exact ⟨j, h.mem_tops_of_parent hg hj hq, rfl⟩

/-- Every instance of a subtree is below its root: by induction along the parents. -/
theorem isBelow_of_mem {g : Forest Instance} {q next : Nat} (hnum : g.Numbered (some q) next)
    (hsub : g.preorder ⊆ t.instances) {j : Instance} (hj : j ∈ g.preorder) :
    t.IsBelow q j.id := by
  induction g generalizing q next with
  | nil => exact absurd hj List.not_mem_nil
  | cons top below after ihb iha =>
    obtain ⟨rfl, hp, hb, ha⟩ := hnum
    rw [Forest.preorder, List.cons_subset, List.append_subset] at hsub
    obtain ⟨htop, hbelow, hafter⟩ := hsub
    rw [Forest.preorder, List.mem_cons, List.mem_append] at hj
    have hedge : t.IsParent q top.id := ⟨top, htop, rfl, hp⟩
    rcases hj with rfl | hj | hj
    · exact Relation.TransGen.single hedge
    · exact Relation.TransGen.head hedge (ihb hb hbelow hj)
    · exact iha ha hafter hj

/-- The instances below one have the numbers right after its own. -/
theorem isBelow_iff (h : t.Numbered) {i : Instance} {g : Forest Instance}
    (hg : (i, g) ∈ t.forest.subtrees) {c : Nat} :
    t.IsBelow i.id c ↔ i.id < c ∧ c ≤ i.id + g.size := by
  obtain ⟨hnum, -, -⟩ := h.subtree hg
  constructor
  · intro hbelow
    induction hbelow with
    | single hc =>
      obtain ⟨j, hj, rfl, hq⟩ := hc
      have := hnum.id_bounds (h.mem_of_isParent hg hj hq (Nat.le_refl _) (by omega))
      omega
    | tail _ hc ih =>
      obtain ⟨j, hj, rfl, hq⟩ := hc
      have := hnum.id_bounds (h.mem_of_isParent hg hj hq (by omega) (by omega))
      omega
  · rintro ⟨hlt, hle⟩
    obtain ⟨j, hj, rfl⟩ := hnum.exists_of_id (k := c) (by omega) (by omega)
    refine isBelow_of_mem hnum ?_ hj
    rw [instances_eq]
    exact Forest.preorder_subset_of_mem_subtrees hg

end Numbered

end InstanceTree

end ReactorSynth
