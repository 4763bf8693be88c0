import ReactorSynth.Proofs.Arena
import ReactorSynth.Proofs.Lineage

/-!
# Ascents

The top-level ancestor of an instance can be found from below, by going up from parent to parent
until the parent is the root. `Ascent` is this walk, round by round, and holds of finite walks
alone. Parents by themselves could lead round in a circle or out of the tree; those of an elaborated
tree lead to the root.

* `Numbered.exists_ascent`: from every instance there is an ascent, which finds what
  `topLevelAncestor?` gives. A round takes one instance off the lineage (`Lineage.round?_cases`), so
  there are no more rounds than levels below the root, or one round from the root itself.
* `Program.height_le_of_elaborateFrom`: there are at most `depthLimit` levels.
* `Numbered.topLevelAncestor?_eq_some_iff`: the top-level ancestor is the one child of the root with
  the instance in its subtree (`IsTopLevelOver`).

**`Program.topLevelAncestor?_of_elaborateFrom`** puts these together: instances share their
top-level ancestor when one child of the root has them all in its subtree.
-/

namespace ReactorSynth

/-! ## Levels -/

namespace Forest

variable {α : Type}

/-- The number of levels. -/
def height : Forest α → Nat
  | nil => 0
  | cons _ below after => max (below.height + 1) after.height

theorem height_le_succ_of_trees {f : Forest α} {n : Nat}
    (h : ∀ a g, (a, g) ∈ f.trees → g.height ≤ n) : f.height ≤ n + 1 := by
  induction f with
  | nil => exact Nat.zero_le _
  | cons top below after _ iha =>
    have hbelow : below.height ≤ n := h top below List.mem_cons_self
    have hafter : after.height ≤ n + 1 := iha fun a g hg => h a g (List.mem_cons_of_mem _ hg)
    exact Nat.max_le.mpr ⟨Nat.succ_le_succ hbelow, hafter⟩

theorem height_map {β : Type} (f : Forest α) (φ : α → β) : (f.map φ).height = f.height := by
  induction f with
  | nil => rfl
  | cons top below after ihb iha => rw [map, height, height, ihb, iha]

/-- A path goes down one level at each step. -/
theorem length_path_le (f : Forest α) (q : α → Bool) : (f.path q).length ≤ f.height := by
  induction f with
  | nil => exact Nat.le_refl _
  | cons top below after ihb iha =>
    rw [path, height]
    split
    · exact Nat.le_trans (Nat.succ_le_succ (Nat.zero_le _)) (Nat.le_max_left _ _)
    · cases hpath : below.path q with
      | nil => exact Nat.le_trans iha (Nat.le_max_right _ _)
      | cons a rest =>
        rw [hpath] at ihb
        exact Nat.le_trans (Nat.succ_le_succ ihb) (Nat.le_max_left _ _)

end Forest

namespace Program

variable {p : Program} {top : Nat} {t : InstanceTree}

/-- Unfolding leaves no more levels than it was allowed: by induction on them. -/
theorem height_le_of_unfold {n id : Nat} {f : Forest Site} (h : p.unfold n id = .ok f) :
    f.height ≤ n := by
  induction n generalizing id f with
  | zero =>
    cases hr : p.reactor? id with
    | none =>
      rw [unfold_of_none hr] at h
      obtain rfl := Except.ok.inj h
      exact Nat.le_refl 0
    | some r =>
      rw [unfold_zero hr] at h
      split at h
      · obtain rfl := Except.ok.inj h
        exact Nat.le_refl 0
      · exact absurd h (by simp)
  | succ n ih =>
    cases hr : p.reactor? id with
    | none =>
      rw [unfold_of_none hr] at h
      obtain rfl := Except.ok.inj h
      exact Nat.zero_le _
    | some r =>
      rw [unfold_succ hr] at h
      exact Forest.height_le_succ_of_trees fun s g hg => ih ((trees_of_placeAll h).2 s g hg).2

theorem height_le_of_elaborateFrom (h : p.elaborateFrom top = .ok t) :
    t.children.height ≤ depthLimit := by
  obtain ⟨r, f, -, hf, rfl⟩ := elaborateFrom_eq_ok_iff.mp h
  have hnumber : (f.number 0 1).height = f.height := by
    rw [← Forest.height_map (f.number 0 1) Instance.toSite, Forest.map_toSite_number]
  exact Nat.le_trans (Nat.le_of_eq hnumber) (height_le_of_unfold hf)

end Program

/-! ## Going up -/

namespace InstanceTree

/-- One round on the way up, from the instance of a number. It ends the walk at the root, which has
no parent and no top-level ancestor, and at a child of the root, which is its own; any other
instance is left for its parent. -/
def round? (t : InstanceTree) (id : Nat) : Option (Option Instance ⊕ Nat) :=
  match t.get? id with
  | none => none
  | some i =>
    match i.parent with
    | none => some (.inl none)
    | some q => some (if q = t.root.id then .inl (some i) else .inr q)

/-- The walk up from the instance of a number ends after some rounds, with a top-level ancestor if
it finds one. -/
inductive Ascent (t : InstanceTree) : (id rounds : Nat) → Option Instance → Prop
  | last {id : Nat} {a : Option Instance} (hround : t.round? id = some (.inl a)) :
      t.Ascent id 1 a
  | up {id q rounds : Nat} {a : Option Instance} (hround : t.round? id = some (.inr q))
      (h : t.Ascent q rounds a) : t.Ascent id (rounds + 1) a

variable {t : InstanceTree} {i a : Instance}

theorem round?_of_root {id : Nat} (hi : t.get? id = some i) (hq : i.parent = none) :
    t.round? id = some (.inl none) := by
  simp only [round?, hi, hq]

theorem round?_of_child {id : Nat} (hi : t.get? id = some i) (hq : i.parent = some t.root.id) :
    t.round? id = some (.inl (some i)) := by
  simp only [round?, hi, hq, if_pos]

theorem round?_of_parent {id q : Nat} (hi : t.get? id = some i) (hq : i.parent = some q)
    (hne : q ≠ t.root.id) : t.round? id = some (.inr q) := by
  simp only [round?, hi, hq, if_neg hne]

/-- There is one way up. -/
theorem Ascent.unique {id m n : Nat} {a b : Option Instance} (ha : t.Ascent id m a)
    (hb : t.Ascent id n b) : m = n ∧ a = b := by
  induction ha generalizing n b with
  | last ha =>
    cases hb with
    | last hb => exact ⟨rfl, Sum.inl.inj (Option.some.inj (ha.symm.trans hb))⟩
    | up hb _ => exact absurd (ha.symm.trans hb) (by simp)
  | up ha _ ih =>
    cases hb with
    | last hb => exact absurd (ha.symm.trans hb) (by simp)
    | up hb hrest =>
      obtain rfl := Sum.inr.inj (Option.some.inj (ha.symm.trans hb))
      obtain ⟨rfl, rfl⟩ := ih hrest
      exact ⟨rfl, rfl⟩

/-! ### Along the lineage -/

theorem Lineage.exists_eq_cons (h : t.Numbered) {o : Option Nat} {chain : List Instance}
    (hchain : t.Lineage o chain) : ∀ id ∈ o, ∃ rest, chain = t.root :: rest := by
  induction hchain with
  | nil => exact fun id hid => absurd hid (by simp)
  | @snoc _ i above hi habove ih =>
    intro _ _
    cases hq : i.parent with
    | none =>
      rw [hq] at habove
      cases habove
      rw [h.eq_root (h.get?_eq_some_iff.mp hi).1 hq]
      exact ⟨[], rfl⟩
    | some q =>
      obtain ⟨rest, rfl⟩ := ih q hq
      exact ⟨rest ++ [i], rfl⟩

/-- Above the root there is nothing. -/
theorem Lineage.eq_singleton_root (h : t.Numbered) {chain : List Instance}
    (hchain : t.Lineage (some t.root.id) chain) : chain = [t.root] := by
  have hget : t.get? t.root.id = some t.root := h.get?_id List.mem_cons_self
  have hnone : t.root.parent = none := h.2.1
  cases hchain with
  | snoc hi habove =>
    obtain rfl := Option.some.inj (hget.symm.trans hi)
    rw [hnone] at habove
    cases habove
    rfl

/-- A round takes an instance off the end of its lineage, or ends the walk if there are only the
root and a child of it. -/
theorem Lineage.round?_cases (h : t.Numbered) {id : Nat} {chain : List Instance}
    (hchain : t.Lineage (some id) chain) :
    (chain = [t.root] ∧ t.round? id = some (.inl none)) ∨
      (∃ a, chain = [t.root, a] ∧ t.round? id = some (.inl (some a))) ∨
      ∃ q a rest i, chain = t.root :: a :: rest ++ [i] ∧ t.Lineage (some q) (t.root :: a :: rest) ∧
        t.round? id = some (.inr q) := by
  cases hchain with
  | @snoc _ i above hi habove =>
    cases hq : i.parent with
    | none =>
      rw [hq] at habove
      cases habove
      obtain rfl := h.eq_root (h.get?_eq_some_iff.mp hi).1 hq
      exact Or.inl ⟨rfl, round?_of_root hi hq⟩
    | some q =>
      rw [hq] at habove
      obtain ⟨rest, rfl⟩ := habove.exists_eq_cons h q rfl
      cases rest with
      | nil =>
        obtain rfl : q = t.root.id := Option.some.inj (habove.eq_map_getLast? h)
        exact Or.inr (Or.inl ⟨i, rfl, round?_of_child hi hq⟩)
      | cons a rest =>
        have hne : q ≠ t.root.id := by
          rintro rfl
          exact absurd (habove.eq_singleton_root h) (by simp)
        exact Or.inr (Or.inr ⟨q, a, rest, i, rfl, habove, round?_of_parent hi hq hne⟩)

/-- The walk up ends with the second instance of the lineage: by induction on how many are left. -/
theorem Lineage.ascent (h : t.Numbered) {id : Nat} {chain : List Instance}
    (hchain : t.Lineage (some id) chain) : t.Ascent id (max 1 chain.tail.length) chain[1]? := by
  induction hlength : chain.length using Nat.strongRecOn generalizing id chain with
  | ind n ih =>
    rcases hchain.round?_cases h with ⟨rfl, hround⟩ | ⟨a, rfl, hround⟩ |
      ⟨q, a, rest, i, rfl, hq, hround⟩
    · exact .last hround
    · exact .last hround
    · have hlt : (t.root :: a :: rest).length < n := by rw [← hlength]; simp
      have hrounds : max 1 (t.root :: a :: rest ++ [i]).tail.length =
          max 1 (t.root :: a :: rest).tail.length + 1 := by simp
      rw [hrounds]
      exact .up hround (ih _ hlt hq rfl)

/-- The walk up ends from every instance, with what the path down tells. -/
theorem Numbered.exists_ascent (h : t.Numbered) (hi : i ∈ t.instances) :
    ∃ n ≤ max 1 t.children.height, t.Ascent i.id n (t.topLevelAncestor? i.id) := by
  refine ⟨_, ?_, (h.lineage_path hi).ascent h⟩
  have hlength : (t.path i.id).length ≤ max (t.children.height + 1) 0 := by
    rw [path_eq]
    exact t.forest.length_path_le _
  rw [List.length_tail]
  omega

/-! ### Children of the root -/

/-- A child of the root with an instance in its subtree. -/
structure IsTopLevelOver (t : InstanceTree) (a i : Instance) : Prop where
  mem : a ∈ t.instances
  parent : a.parent = some t.root.id
  mem_subtree : ∃ s, t.subtree? a.id = some s ∧ i ∈ s.instances

/-- The children of the root head the trees of the row below it. -/
theorem Numbered.isTopLevelOver_iff (h : t.Numbered) :
    t.IsTopLevelOver a i ↔ ∃ g, (a, g) ∈ t.children.trees ∧ i ∈ a :: g.preorder := by
  have hroot : (t.root, t.children) ∈ t.forest.subtrees := List.mem_cons_self
  have hsubtree : ∀ {g}, (a, g) ∈ t.children.trees → t.subtree? a.id = some ⟨a, g⟩ := fun hg =>
    h.subtree?_eq_some_iff.mpr ⟨Forest.subtrees_subset_of_mem hroot
      (t.children.trees_subset_subtrees hg), rfl⟩
  constructor
  · rintro ⟨hmem, hparent, s, hs, hi⟩
    have htop : a ∈ t.children.tops := h.mem_tops_of_parent hroot hmem hparent
    rw [← Forest.map_fst_trees] at htop
    obtain ⟨⟨a, g⟩, hg, rfl⟩ := List.mem_map.mp htop
    obtain rfl := Option.some.inj ((hsubtree hg).symm.trans hs)
    exact ⟨g, hg, hi⟩
  · rintro ⟨g, hg, hi⟩
    have htop : a ∈ t.children.tops := by
      rw [← Forest.map_fst_trees]
      exact List.mem_map_of_mem hg
    obtain ⟨hchildren, -, -⟩ := h.subtree hroot
    exact ⟨List.mem_cons_of_mem _ (t.children.tops_sublist_preorder.subset htop),
      hchildren.parent_of_mem_tops htop, _, hsubtree hg, hi⟩

/-- A child of the root is over every instance but the root. -/
theorem Numbered.exists_isTopLevelOver (h : t.Numbered) (hi : i ∈ t.children.preorder) :
    ∃ a, t.IsTopLevelOver a i := by
  obtain ⟨a, g, hg, hmem⟩ := Forest.mem_preorder_iff.mp hi
  exact ⟨a, h.isTopLevelOver_iff.mpr ⟨g, hg, hmem⟩⟩

theorem IsTopLevelOver.topLevelAncestor?_eq (h : t.Numbered) (ha : t.IsTopLevelOver a i) :
    t.topLevelAncestor? i.id = some a := by
  obtain ⟨g, hg, hmem⟩ := h.isTopLevelOver_iff.mp ha
  exact h.topLevelAncestor?_eq hg hmem

/-- The top-level ancestor is the child of the root with the instance in its subtree. -/
theorem Numbered.topLevelAncestor?_eq_some_iff (h : t.Numbered) (hi : i ∈ t.instances) :
    t.topLevelAncestor? i.id = some a ↔ t.IsTopLevelOver a i := by
  constructor
  · intro hsome
    rcases List.mem_cons.mp hi with rfl | hi
    · exact absurd (t.topLevelAncestor?_root.symm.trans hsome) (by simp)
    · obtain ⟨b, hb⟩ := h.exists_isTopLevelOver hi
      obtain rfl := Option.some.inj ((hb.topLevelAncestor?_eq h).symm.trans hsome)
      exact hb
  · exact fun ha => ha.topLevelAncestor?_eq h

/-- The root alone has no top-level ancestor. -/
theorem Numbered.topLevelAncestor?_eq_none_iff (h : t.Numbered) (hi : i ∈ t.instances) :
    t.topLevelAncestor? i.id = none ↔ i = t.root := by
  constructor
  · intro hnone
    rcases List.mem_cons.mp hi with rfl | hi
    · rfl
    · obtain ⟨b, hb⟩ := h.exists_isTopLevelOver hi
      exact absurd ((hb.topLevelAncestor?_eq h).symm.trans hnone) (by simp)
  · rintro rfl
    exact t.topLevelAncestor?_root

/-- Two instances have the same top-level ancestor when both are the root, or one child of the root
has both in its subtree. -/
theorem Numbered.topLevelAncestor?_eq_iff (h : t.Numbered) {j : Instance} (hi : i ∈ t.instances)
    (hj : j ∈ t.instances) :
    t.topLevelAncestor? i.id = t.topLevelAncestor? j.id ↔
      (i = t.root ∧ j = t.root) ∨ ∃ a, t.IsTopLevelOver a i ∧ t.IsTopLevelOver a j := by
  constructor
  · intro heq
    cases hend : t.topLevelAncestor? j.id with
    | none =>
      rw [hend] at heq
      exact Or.inl ⟨(h.topLevelAncestor?_eq_none_iff hi).mp heq,
        (h.topLevelAncestor?_eq_none_iff hj).mp hend⟩
    | some a =>
      rw [hend] at heq
      exact Or.inr ⟨a, (h.topLevelAncestor?_eq_some_iff hi).mp heq,
        (h.topLevelAncestor?_eq_some_iff hj).mp hend⟩
  · rintro (⟨rfl, rfl⟩ | ⟨a, ha, hb⟩)
    · rfl
    · rw [(h.topLevelAncestor?_eq_some_iff hi).mpr ha, (h.topLevelAncestor?_eq_some_iff hj).mpr hb]

end InstanceTree

namespace Program

variable {p : Program} {top : Nat} {t : InstanceTree}

/-- From every instance of an elaborated tree there is one walk up its parents, which ends within
`depthLimit` rounds and finds its top-level ancestor. The root alone has none; for any other
instance it is the one child of the root with the instance in its subtree. So two instances, unless
both are the root, have the same top-level ancestor iff one child of the root has both in its
subtree. -/
theorem topLevelAncestor?_of_elaborateFrom (h : p.elaborateFrom top = .ok t) :
    (∀ i ∈ t.instances, ∃ n ≤ depthLimit, ∀ rounds a,
      t.Ascent i.id rounds a ↔ rounds = n ∧ a = t.topLevelAncestor? i.id) ∧
    (∀ i ∈ t.instances, t.topLevelAncestor? i.id = none ↔ i = t.root) ∧
    (∀ i ∈ t.instances, i ≠ t.root → ∃ a, t.topLevelAncestor? i.id = some a ∧
      ∀ b, t.IsTopLevelOver b i ↔ b = a) ∧
    ∀ i ∈ t.instances, ∀ j ∈ t.instances,
      (t.topLevelAncestor? i.id = t.topLevelAncestor? j.id ↔
        (i = t.root ∧ j = t.root) ∨ ∃ a, t.IsTopLevelOver a i ∧ t.IsTopLevelOver a j) := by
  have hnum := numbered_of_elaborateFrom h
  refine ⟨fun i hi => ?_, fun i hi => hnum.topLevelAncestor?_eq_none_iff hi, fun i hi hne => ?_,
    fun i hi j hj => hnum.topLevelAncestor?_eq_iff hi hj⟩
  · obtain ⟨n, hle, hn⟩ := hnum.exists_ascent hi
    have hlimit : max 1 t.children.height ≤ depthLimit :=
      Nat.max_le.mpr ⟨by decide, height_le_of_elaborateFrom h⟩
    refine ⟨n, Nat.le_trans hle hlimit, fun rounds a => ⟨fun ha => ha.unique hn, ?_⟩⟩
    rintro ⟨rfl, rfl⟩
    exact hn
  · cases hend : t.topLevelAncestor? i.id with
    | none => exact absurd ((hnum.topLevelAncestor?_eq_none_iff hi).mp hend) hne
    | some a =>
      refine ⟨a, rfl, fun b => ?_⟩
      rw [← hnum.topLevelAncestor?_eq_some_iff hi, hend, Option.some.injEq]
      exact eq_comm

/-- A bank of cells, each with a valve and its seal, beside a valve of the same class. -/
def valveCells : Program where
  reactors :=
    [{ name := "Seal" },
     { name := "Valve", instantiations := [{ name := "seal", reactorClass := "Seal" }] },
     { name := "Cell", instantiations := [{ name := "valve", reactorClass := "Valve" }] },
     { name := "Main"
       instantiations :=
         [{ name := "cell", reactorClass := "Cell", width := some (.literal 2) },
          { name := "valve", reactorClass := "Valve" }] }]

/-- The seals of the two cells are the instances 3 and 6. -/
theorem topLevelAncestor?_of_elaborateFrom_valveCells :
    ∃ t, valveCells.elaborateFrom 3 = .ok t ∧
      t.instances.map (fun i => (t.topLevelAncestor? i.id).map (·.id)) =
        [none, some 1, some 1, some 1, some 4, some 4, some 4, some 7, some 7] ∧
      (∀ i ∈ t.instances, ∃ n ≤ depthLimit, t.Ascent i.id n (t.topLevelAncestor? i.id)) ∧
      ∀ i j, t.get? 3 = some i → t.get? 6 = some j →
        ∀ a, t.IsTopLevelOver a i → ¬ t.IsTopLevelOver a j := by
  have h : valveCells.elaborateFrom 3 = .ok (.ofSites ⟨Text.lowercase "Main", 3, none⟩
      (.cons ⟨"cell", 2, some 0⟩
          (.cons ⟨"valve", 1, none⟩ (.cons ⟨"seal", 0, none⟩ .nil .nil) .nil)
        (.cons ⟨"cell", 2, some 1⟩
            (.cons ⟨"valve", 1, none⟩ (.cons ⟨"seal", 0, none⟩ .nil .nil) .nil)
          (.cons ⟨"valve", 1, none⟩ (.cons ⟨"seal", 0, none⟩ .nil .nil) .nil)))) := by rfl
  obtain ⟨hascent, -, -, hshared⟩ := topLevelAncestor?_of_elaborateFrom h
  refine ⟨_, h, by decide, fun i hi => ?_, fun i j hi hj a ha hb => ?_⟩
  · obtain ⟨n, hle, hn⟩ := hascent i hi
    exact ⟨n, hle, (hn n _).mpr ⟨rfl, rfl⟩⟩
  · have heq := (hshared i (List.mem_of_getElem? hi) j (List.mem_of_getElem? hj)).mpr
      (Or.inr ⟨a, ha, hb⟩)
    obtain rfl := Option.some.inj hi
    obtain rfl := Option.some.inj hj
    exact absurd heq (by decide)

end Program

end ReactorSynth
