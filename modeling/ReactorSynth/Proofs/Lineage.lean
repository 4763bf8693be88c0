import ReactorSynth.Proofs.TopLevel

/-!
# Lineages

The lineage of an instance is what the walk up its parents sees, from the root down to the instance
itself. `Lineage` is that walk and holds of finite walks alone, so an instance with a lineage is one
whose walk ends.

**`InstanceTree.Numbered.lineage_path`**: in a tree numbered depth first every instance has a
lineage, the path to it. Two more facts say where a lineage lies: it starts at the root
(`Numbered.exists_path_eq_cons`), and each step down goes to an instance of the row directly below
(`Numbered.exists_mem_tops`).
-/

namespace ReactorSynth

namespace InstanceTree

/-- The walk from an instance up its parents ends after these instances, which stand the other way
round: an ancestor before those below it. Past the root there is nothing to visit. -/
inductive Lineage (t : InstanceTree) : Option Nat → List Instance → Prop
  | nil : t.Lineage none []
  | snoc {id : Nat} {i : Instance} {above : List Instance} (hi : t.get? id = some i)
      (habove : t.Lineage i.parent above) : t.Lineage (some id) (above ++ [i])

variable {t : InstanceTree}

/-- A lineage ends with the instance whose walk it is. -/
theorem Lineage.eq_map_getLast? (h : t.Numbered) {id : Option Nat} {chain : List Instance}
    (hchain : t.Lineage id chain) : id = chain.getLast?.map (·.id) := by
  cases hchain with
  | nil => rfl
  | snoc hi _ =>
    rw [List.getLast?_append, List.getLast?_singleton, Option.some_or, Option.map_some,
      (h.get?_eq_some_iff.mp hi).2]

end InstanceTree

/-! ## Lineages of a numbered forest -/

namespace Forest.Numbered

variable {t : InstanceTree} {f : Forest Instance} {i : Instance} {parent : Option Nat} {next : Nat}
  {above : List Instance}

/-- Below a parent with a lineage, the path within the forest continues that lineage. -/
theorem lineage (h : f.Numbered parent next) (habove : t.Lineage parent above)
    (hget : ∀ j ∈ f.preorder, t.get? j.id = some j) (hi : i ∈ f.preorder) :
    t.Lineage (some i.id) (above ++ f.path (·.id == i.id)) := by
  induction f generalizing parent next above with
  | nil => exact absurd hi List.not_mem_nil
  | cons top below after ihb iha =>
    have htop : t.Lineage (some top.id) (above ++ [top]) :=
      .snoc (hget top List.mem_cons_self) (h.2.1 ▸ habove)
    have hgetb : ∀ j ∈ below.preorder, t.get? j.id = some j := fun j hj =>
      hget j (List.mem_cons_of_mem _ (List.mem_append_left _ hj))
    have hgeta : ∀ j ∈ after.preorder, t.get? j.id = some j := fun j hj =>
      hget j (List.mem_cons_of_mem _ (List.mem_append_right _ hj))
    rcases List.mem_cons.mp hi with rfl | hi
    · rw [path, if_pos (beq_self_eq_true i.id)]
      exact htop
    · rcases List.mem_append.mp hi with hi | hi
      · rw [h.path_of_mem_below hi, List.append_cons]
        obtain ⟨rfl, -, hb, -⟩ := h
        exact ihb hb htop hgetb hi
      · rw [h.path_of_mem_after hi]
        exact iha h.2.2.2 habove hgeta hi

end Forest.Numbered

namespace InstanceTree

variable {t : InstanceTree}

/-- The path to an instance is its lineage. -/
theorem Numbered.lineage_path (h : t.Numbered) {i : Instance} (hi : i ∈ t.instances) :
    t.Lineage (some i.id) (t.path i.id) := by
  have hget : ∀ j ∈ t.forest.preorder, t.get? j.id = some j := fun j hj =>
    h.get?_id (by rwa [instances_eq])
  rw [instances_eq] at hi
  rw [path_eq]
  exact Forest.Numbered.lineage h .nil hget hi

/-- The path to an instance starts at the root and goes on through instances below it. -/
theorem Numbered.exists_path_eq_cons (h : t.Numbered) {i : Instance} (hi : i ∈ t.instances) :
    ∃ rest, t.path i.id = t.root :: rest ∧ rest ⊆ t.children.preorder := by
  rcases List.mem_cons.mp hi with rfl | hi
  · exact ⟨[], by rw [path, if_pos (beq_self_eq_true _)], List.nil_subset _⟩
  · refine ⟨_, ?_, t.children.path_subset_preorder (·.id == i.id)⟩
    rw [path_eq]
    exact Forest.Numbered.path_of_mem_below h hi

theorem Numbered.eq_root (h : t.Numbered) {i : Instance} (hi : i ∈ t.instances)
    (hnone : i.parent = none) : i = t.root := by
  rw [instances_eq] at hi
  rcases h.parent_cases hi with ⟨htop, -⟩ | ⟨q, hq, -, -⟩
  · exact List.mem_singleton.mp htop
  · exact absurd (hq.symm.trans hnone) (by simp)

theorem Numbered.exists_parent_of_mem_children (h : t.Numbered) {i : Instance}
    (hi : i ∈ t.children.preorder) : ∃ q, i.parent = some q := by
  obtain ⟨-, -, hchildren, -⟩ := h
  rcases hchildren.parent_cases hi with ⟨-, hq⟩ | ⟨q, hq, -, -⟩
  · exact ⟨0, hq⟩
  · exact ⟨q, hq⟩

/-- A parent is an instance, and has the instance in the row directly below it. -/
theorem Numbered.exists_mem_tops (h : t.Numbered) {i : Instance} (hi : i ∈ t.instances) {q : Nat}
    (hq : i.parent = some q) : ∃ j g, (j, g) ∈ t.forest.subtrees ∧ j.id = q ∧ i ∈ g.tops := by
  have hmem : i ∈ t.forest.preorder := by rwa [← instances_eq]
  rcases h.parent_cases hmem with ⟨-, hnone⟩ | ⟨q', hq', hle, hlt⟩
  · exact absurd (hq.symm.trans hnone) (by simp)
  · obtain rfl := Option.some.inj (hq.symm.trans hq')
    have hbound := (h.id_bounds hmem).2
    obtain ⟨j, hj, rfl⟩ := h.exists_of_id hle (by omega)
    obtain ⟨g, hg⟩ := Forest.exists_mem_subtrees hj
    exact ⟨j, g, hg, rfl, h.mem_tops_of_parent hg hi hq⟩

end InstanceTree

end ReactorSynth
