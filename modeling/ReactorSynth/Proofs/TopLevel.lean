import ReactorSynth.Federate
import ReactorSynth.Proofs.Numbering

/-!
# Top-level instances

Every instance but the root lies at or below one child of the root. In a tree numbered depth first
that child is what `topLevelAncestor?` finds (`InstanceTree.Numbered.topLevelAncestor?_eq`), so a
federate owns whole trees of the row below the root:

* `FederateLayout.owns_eq`: an instance is owned if the child of the root above it is.
* **`FederateLayout.filter_owns`**: the owned instances are those of the kept trees
  (`Forest.keep`), depth first.
-/

namespace ReactorSynth

namespace Forest

variable {α : Type}

/-! ## Keeping trees of the row -/

/-- The trees of the row whose roots have a property, with all that lies below them. -/
def keep (q : α → Bool) : Forest α → Forest α
  | nil => nil
  | cons top below after => if q top then cons top below (after.keep q) else after.keep q

theorem tops_keep (f : Forest α) (q : α → Bool) : (f.keep q).tops = f.tops.filter q := by
  induction f with
  | nil => rfl
  | cons top below after _ iha =>
    rw [keep, tops]
    split
    · rename_i h
      rw [tops, iha, List.filter_cons_of_pos h]
    · rename_i h
      rw [iha, List.filter_cons_of_neg h]

theorem subtrees_keep_subset (f : Forest α) (q : α → Bool) : (f.keep q).subtrees ⊆ f.subtrees := by
  induction f with
  | nil => exact List.Subset.refl _
  | cons top below after _ iha =>
    have hafter : (after.keep q).subtrees ⊆ below.subtrees ++ after.subtrees :=
      List.Subset.trans iha (List.subset_append_right _ _)
    rw [keep]
    split
    · exact List.cons_subset_cons _ (List.append_subset.mpr ⟨List.subset_append_left _ _, hafter⟩)
    · exact List.Subset.trans hafter (List.subset_cons_self _ _)

theorem map_keep {β : Type} (f : Forest α) (φ : α → β) (q : β → Bool) :
    (f.keep fun a => q (φ a)).map φ = (f.map φ).keep q := by
  induction f with
  | nil => rfl
  | cons top below after _ iha =>
    rw [keep, map, keep]
    split
    · rw [map, iha]
    · exact iha

/-- A label property that is that of the roots above the labels keeps whole trees. -/
theorem filter_preorder_eq_keep {f : Forest α} {q r : α → Bool}
    (h : ∀ a g, (a, g) ∈ f.trees → ∀ b ∈ a :: g.preorder, r b = q a) :
    f.preorder.filter r = (f.keep q).preorder := by
  induction f with
  | nil => rfl
  | cons top below after _ iha =>
    have htop := h top below List.mem_cons_self
    have hafter := iha fun a g hg => h a g (List.mem_cons_of_mem _ hg)
    rw [preorder, ← List.cons_append, List.filter_append, hafter, keep]
    split
    · rename_i hq
      rw [List.filter_eq_self.mpr fun b hb => (htop b hb).trans hq, preorder, List.cons_append]
    · rename_i hq
      rw [List.filter_eq_nil_iff.mpr fun b hb => (htop b hb).symm ▸ hq, List.nil_append]

/-! ## Paths -/

theorem path_eq_nil_iff {f : Forest α} {q : α → Bool} :
    f.path q = [] ↔ ∀ a ∈ f.preorder, ¬ q a = true := by
  induction f with
  | nil => exact ⟨fun _ a ha => absurd ha List.not_mem_nil, fun _ => rfl⟩
  | cons top below after ihb iha =>
    rw [path, preorder, List.forall_mem_cons, List.forall_mem_append, ← ihb, ← iha]
    split
    · rename_i h
      exact ⟨fun h0 => absurd h0 (by simp), fun h0 => absurd h h0.1⟩
    · rename_i h
      cases below.path q with
      | nil => exact ⟨fun h0 => ⟨h, rfl, h0⟩, fun h0 => h0.2.2⟩
      | cons a rest => exact ⟨fun h0 => absurd h0 (by simp), fun h0 => absurd h0.2.1 (by simp)⟩

theorem path_subset_preorder (f : Forest α) (q : α → Bool) :
    f.path q ⊆ f.preorder := by
  induction f with
  | nil => exact List.Subset.refl _
  | cons top below after ihb iha =>
    rw [path, preorder]
    split
    · exact List.cons_subset_cons _ (List.nil_subset _)
    · cases hpath : below.path q with
      | nil =>
        have hafter : after.path q ⊆ below.preorder ++ after.preorder :=
          List.Subset.trans iha (List.subset_append_right _ _)
        exact List.Subset.trans hafter (List.subset_cons_self _ _)
      | cons a rest =>
        rw [hpath] at ihb
        exact List.cons_subset_cons _ (List.Subset.trans ihb (List.subset_append_left _ _))

namespace Numbered

variable {f g below after : Forest Instance} {parent : Option Nat} {next : Nat} {top i j : Instance}

/-- A path into the first tree of the row starts at its root. -/
theorem path_of_mem_below (h : (cons top below after).Numbered parent next)
    (hi : i ∈ below.preorder) :
    (cons top below after).path (·.id == i.id) = top :: below.path (·.id == i.id) := by
  obtain ⟨htop, -, hb, -⟩ := h
  have hle := (hb.id_bounds hi).1
  rw [path, if_neg (by rw [beq_iff_eq]; omega)]
  cases hpath : below.path (·.id == i.id) with
  | nil => exact absurd (beq_self_eq_true i.id) (path_eq_nil_iff.mp hpath i hi)
  | cons _ _ => rfl

/-- The first tree of the row is no part of a path into a later one, whose numbers come after its
own. -/
theorem path_of_mem_after (h : (cons top below after).Numbered parent next)
    (hi : i ∈ after.preorder) :
    (cons top below after).path (·.id == i.id) = after.path (·.id == i.id) := by
  obtain ⟨htop, -, hb, ha⟩ := h
  have hle := (ha.id_bounds hi).1
  have hbelow : below.path (·.id == i.id) = [] := path_eq_nil_iff.mpr fun j hj heq => by
    have hlt := (hb.id_bounds hj).2
    have hid : j.id = i.id := eq_of_beq heq
    omega
  rw [path, if_neg (by rw [beq_iff_eq]; omega), hbelow]

/-- The path to an instance starts at the root of the tree of the row that it lies in. -/
theorem head?_path (h : f.Numbered parent next) (hi : (i, g) ∈ f.trees) (hj : j ∈ i :: g.preorder) :
    (f.path (·.id == j.id)).head? = some i := by
  induction f generalizing next with
  | nil => exact absurd hi List.not_mem_nil
  | cons top below after _ iha =>
    rcases List.mem_cons.mp hi with heq | hi
    · obtain ⟨rfl, rfl⟩ := Prod.mk.inj heq
      rcases List.mem_cons.mp hj with rfl | hj
      · rw [path, if_pos (beq_self_eq_true j.id), List.head?_cons]
      · rw [h.path_of_mem_below hj, List.head?_cons]
    · have hmem : j ∈ after.preorder := mem_preorder_iff.mpr ⟨i, g, hi, hj⟩
      rw [h.path_of_mem_after hmem]
      exact iha h.2.2.2 hi

end Numbered

end Forest

namespace InstanceTree

theorem path_eq (t : InstanceTree) (id : Nat) : t.path id = t.forest.path (·.id == id) := by
  rw [path, forest, Forest.path]
  split
  · rfl
  · cases t.children.path (·.id == id) <;> rfl

theorem topLevelAncestor?_root (t : InstanceTree) : t.topLevelAncestor? t.root.id = none := by
  rw [topLevelAncestor?, path, if_pos (beq_self_eq_true _)]
  rfl

/-- The top-level ancestor of an instance is the child of the root that it lies at or below. -/
theorem Numbered.topLevelAncestor?_eq {t : InstanceTree} (h : t.Numbered) {i j : Instance}
    {g : Forest Instance} (hi : (i, g) ∈ t.children.trees) (hj : j ∈ i :: g.preorder) :
    t.topLevelAncestor? j.id = some i := by
  have hmem : j ∈ t.children.preorder := Forest.mem_preorder_iff.mpr ⟨i, g, hi, hj⟩
  have hpath : t.path j.id = t.root :: t.children.path (·.id == j.id) := by
    rw [path_eq]
    exact Forest.Numbered.path_of_mem_below h hmem
  obtain ⟨-, -, hchildren, -⟩ := h
  rw [topLevelAncestor?, hpath, List.getElem?_cons_succ, ← List.head?_eq_getElem?]
  exact hchildren.head?_path hi hj

end InstanceTree

namespace FederateLayout

/-- Whether the federate runs a site directly below the root. -/
def ownsSite (l : FederateLayout) (s : Site) : Bool :=
  match l.instantiation with
  | none => true
  | some instantiation =>
    s.name == instantiation && (l.bankIndex.isNone || s.bankIndex == l.bankIndex)

variable {t : InstanceTree}

/-- Everything at or below a child of the root is owned if the child is. -/
theorem owns_eq (l : FederateLayout) (h : t.Numbered) {i j : Instance} {g : Forest Instance}
    (hi : (i, g) ∈ t.children.trees) (hj : j ∈ i :: g.preorder) :
    l.owns t j.id = l.ownsSite i.toSite := by
  unfold owns ownsSite
  cases l.instantiation with
  | none => rfl
  | some name =>
    rw [h.topLevelAncestor?_eq hi hj]
    rfl

/-- The owned instances below the root are those of the trees whose roots the federate runs. -/
theorem filter_owns (l : FederateLayout) (h : t.Numbered) :
    t.children.preorder.filter (fun i => l.owns t i.id) =
      (t.children.keep fun i => l.ownsSite i.toSite).preorder :=
  Forest.filter_preorder_eq_keep fun _ _ hi _ hj => l.owns_eq h hi hj

end FederateLayout

end ReactorSynth
