import ReactorSynth.Forest

/-!
# Trees of a forest

A forest seen as a list: of the trees that stand side by side in it (`trees`), and of these with
all trees below them (`subtrees`), each tree as its root and the forest below the root. Walks of
the forest are walks of these lists: `preorder_eq_flatMap`, `map_fst_subtrees`, `find?_eq`.
-/

namespace ReactorSynth.Forest

variable {α : Type}

/-- The trees of the row, each as its root and the forest below it. -/
def trees : Forest α → List (α × Forest α)
  | nil => []
  | cons top below after => (top, below) :: after.trees

/-- The trees of the row and all trees below them, depth first. -/
def subtrees : Forest α → List (α × Forest α)
  | nil => []
  | cons top below after => (top, below) :: (below.subtrees ++ after.subtrees)

/-! ## Walks as walks of lists -/

theorem map_fst_trees (f : Forest α) : f.trees.map Prod.fst = f.tops := by
  induction f with
  | nil => rfl
  | cons top below after _ iha => rw [trees, tops, List.map_cons, iha]

theorem map_fst_subtrees (f : Forest α) : f.subtrees.map Prod.fst = f.preorder := by
  induction f with
  | nil => rfl
  | cons top below after ihb iha =>
    rw [subtrees, preorder, List.map_cons, List.map_append, ihb, iha]

theorem preorder_eq_flatMap (f : Forest α) :
    f.preorder = f.trees.flatMap fun t => t.1 :: t.2.preorder := by
  induction f with
  | nil => rfl
  | cons top below after _ iha =>
    rw [preorder, trees, List.flatMap_cons, List.cons_append, ← iha]

theorem find?_eq (f : Forest α) (q : α → Bool) :
    f.find? q = f.subtrees.find? fun t => q t.1 := by
  induction f with
  | nil => rfl
  | cons top below after ihb iha =>
    rw [find?, subtrees, List.find?_cons, List.find?_append, ← ihb, ← iha]
    cases q top with
    | true => rfl
    | false => cases below.find? q <;> rfl

theorem trees_append (f g : Forest α) : (f.append g).trees = f.trees ++ g.trees := by
  induction f with
  | nil => rfl
  | cons top below after _ iha => rw [append, trees, trees, List.cons_append, iha]

theorem trees_replicate (below : Forest α) (labels : List α) :
    (replicate below labels).trees = labels.map (·, below) := by
  induction labels with
  | nil => rfl
  | cons top rest ih => rw [replicate, trees, ih, List.map_cons]

theorem tops_map {β : Type} (f : Forest α) (φ : α → β) : (f.map φ).tops = f.tops.map φ := by
  induction f with
  | nil => rfl
  | cons top below after _ iha => rw [map, tops, tops, List.map_cons, iha]

theorem subtrees_map {β : Type} (f : Forest α) (φ : α → β) :
    (f.map φ).subtrees = f.subtrees.map fun t => (φ t.1, t.2.map φ) := by
  induction f with
  | nil => rfl
  | cons top below after ihb iha =>
    rw [map, subtrees, subtrees, ihb, iha, List.map_cons, List.map_append]

theorem preorder_map {β : Type} (f : Forest α) (φ : α → β) :
    (f.map φ).preorder = f.preorder.map φ := by
  rw [← map_fst_subtrees, ← map_fst_subtrees, subtrees_map, List.map_map, List.map_map]
  rfl

/-! ## Membership -/

theorem exists_mem_subtrees {f : Forest α} {a : α} (h : a ∈ f.preorder) :
    ∃ g, (a, g) ∈ f.subtrees := by
  rw [← map_fst_subtrees] at h
  obtain ⟨⟨b, g⟩, hg, rfl⟩ := List.mem_map.mp h
  exact ⟨g, hg⟩

/-- A label of the forest is a label of one of the trees of the row. -/
theorem mem_preorder_iff {f : Forest α} {a : α} :
    a ∈ f.preorder ↔ ∃ b g, (b, g) ∈ f.trees ∧ a ∈ b :: g.preorder := by
  rw [preorder_eq_flatMap, List.mem_flatMap, Prod.exists]

theorem tops_sublist_preorder (f : Forest α) : f.tops.Sublist f.preorder := by
  induction f with
  | nil => exact List.Sublist.refl _
  | cons top below after _ iha =>
    exact (iha.trans (List.sublist_append_right _ _)).cons_cons top

theorem trees_subset_subtrees (f : Forest α) : f.trees ⊆ f.subtrees := by
  induction f with
  | nil => exact List.Subset.refl _
  | cons top below after _ iha =>
    exact List.cons_subset_cons _ (List.Subset.trans iha (List.subset_append_right _ _))

/-- The trees below a tree of the forest are trees of the forest. -/
theorem subtrees_subset_of_mem {f g : Forest α} {a : α} (h : (a, g) ∈ f.subtrees) :
    g.subtrees ⊆ f.subtrees := by
  induction f with
  | nil => exact absurd h List.not_mem_nil
  | cons top below after ihb iha =>
    rw [subtrees, List.mem_cons, List.mem_append] at h
    rw [subtrees]
    intro b hb
    rcases h with h | h | h
    · obtain ⟨rfl, rfl⟩ := Prod.mk.inj h
      exact List.mem_cons_of_mem _ (List.mem_append_left _ hb)
    · exact List.mem_cons_of_mem _ (List.mem_append_left _ (ihb h hb))
    · exact List.mem_cons_of_mem _ (List.mem_append_right _ (iha h hb))

/-- What lies below the root of a tree of the forest lies in the forest. -/
theorem preorder_subset_of_mem_subtrees {f g : Forest α} {a : α} (h : (a, g) ∈ f.subtrees) :
    g.preorder ⊆ f.preorder := by
  rw [← map_fst_subtrees, ← map_fst_subtrees]
  exact List.map_subset Prod.fst (subtrees_subset_of_mem h)

/-- A tree of the forest lies within one of the trees of the row. -/
theorem exists_tree_of_mem_subtrees {f g : Forest α} {a : α} (h : (a, g) ∈ f.subtrees) :
    ∃ b k, (b, k) ∈ f.trees ∧ a :: g.preorder ⊆ b :: k.preorder := by
  induction f with
  | nil => exact absurd h List.not_mem_nil
  | cons top below after _ iha =>
    rw [subtrees, List.mem_cons, List.mem_append] at h
    rcases h with h | h | h
    · exact ⟨a, g, by rw [h]; exact List.mem_cons_self, List.Subset.refl _⟩
    · have ha : a ∈ below.preorder := by
        rw [← map_fst_subtrees]
        exact List.mem_map_of_mem h
      refine ⟨top, below, List.mem_cons_self, List.cons_subset.mpr ⟨?_, ?_⟩⟩
      · exact List.mem_cons_of_mem _ ha
      · exact List.Subset.trans (preorder_subset_of_mem_subtrees h) (List.subset_cons_self _ _)
    · obtain ⟨b, k, hb, hsub⟩ := iha h
      exact ⟨b, k, List.mem_cons_of_mem _ hb, hsub⟩

/-- The forest below a tree of the forest is smaller than the forest. -/
theorem size_lt_of_mem_subtrees {f g : Forest α} {a : α} (h : (a, g) ∈ f.subtrees) :
    g.size < f.size := by
  induction f with
  | nil => exact absurd h List.not_mem_nil
  | cons top below after ihb iha =>
    rw [subtrees, List.mem_cons, List.mem_append] at h
    rw [size]
    rcases h with h | h | h
    · obtain ⟨rfl, rfl⟩ := Prod.mk.inj h
      omega
    · have := ihb h
      omega
    · have := iha h
      omega

/-- What holds of the trees of the row, and of those below any tree it holds of, holds of all. -/
theorem forall_mem_subtrees {P : α → Forest α → Prop} {f : Forest α}
    (hrow : ∀ a g, (a, g) ∈ f.trees → P a g)
    (hbelow : ∀ a g, P a g → ∀ b h, (b, h) ∈ g.trees → P b h) :
    ∀ a g, (a, g) ∈ f.subtrees → P a g := by
  induction f with
  | nil => exact fun a g h => absurd h List.not_mem_nil
  | cons top below after ihb iha =>
    have htop : P top below := hrow top below List.mem_cons_self
    intro a g h
    rw [subtrees, List.mem_cons, List.mem_append] at h
    rcases h with h | h | h
    · obtain ⟨rfl, rfl⟩ := Prod.mk.inj h
      exact htop
    · exact ihb (hbelow top below htop) a g h
    · exact iha (fun b k hk => hrow b k (List.mem_cons_of_mem _ hk)) a g h

end ReactorSynth.Forest
