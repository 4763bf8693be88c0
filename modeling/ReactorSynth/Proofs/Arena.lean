import ReactorSynth.Proofs.Numbering
import ReactorSynth.Proofs.Unfolding

/-!
# The arena of an elaborated tree

The instances of an elaborated tree, each in the slot of its number, with the numbers of its parent
and of its children. **`elaborateFrom_isUnfolding`**: this arena is the depth-first unfolding of the
program (`IsUnfolding`), slot by slot.

Two facts carry it: the tree is numbered depth first (`numbered_of_elaborateFrom`), and below each
instance lies what its reactor unfolds to (`unfoldsTo_of_elaborateFrom`).
-/

namespace ReactorSynth

/-- The numbering of sites leaves the sites as they are. -/
theorem Forest.map_toSite_number (f : Forest Site) (parent next : Nat) :
    (f.number parent next).map Instance.toSite = f := by
  induction f generalizing parent next with
  | nil => rfl
  | cons top below after ihb iha => rw [number, map, ihb, iha]

namespace Program

variable {p : Program} {top : Nat} {t : InstanceTree}

theorem numbered_of_elaborateFrom (h : p.elaborateFrom top = .ok t) : t.Numbered := by
  obtain ⟨r, f, -, -, rfl⟩ := elaborateFrom_eq_ok_iff.mp h
  exact InstanceTree.numbered_ofSites _ f

theorem root_reactor_of_elaborateFrom (h : p.elaborateFrom top = .ok t) : t.root.reactor = top := by
  obtain ⟨r, f, -, -, rfl⟩ := elaborateFrom_eq_ok_iff.mp h
  rfl

/-- Below each instance lies what its reactor unfolds to. -/
theorem unfoldsTo_of_elaborateFrom (h : p.elaborateFrom top = .ok t) {i : Instance}
    {g : Forest Instance} (hg : (i, g) ∈ t.forest.subtrees) :
    p.UnfoldsTo i.reactor (g.map Instance.toSite) := by
  obtain ⟨r, f, hr, hf, rfl⟩ := elaborateFrom_eq_ok_iff.mp h
  have htop : p.UnfoldsTo top f := ⟨⟨r, hr⟩, hf⟩
  have hmap : (i.toSite, g.map Instance.toSite) ∈ Forest.subtrees
      (.cons ⟨Text.lowercase r.name, top, none⟩ f .nil) := by
    rw [← Forest.map_toSite_number f 0 1]
    have := List.mem_map_of_mem (f := fun u => (u.1.toSite, u.2.map Instance.toSite)) hg
    rw [← Forest.subtrees_map] at this
    exact this
  rw [Forest.subtrees, List.mem_cons, List.mem_append] at hmap
  rcases hmap with heq | hmem | hmem
  · obtain ⟨hsite, hforest⟩ := Prod.mk.inj heq
    rw [hforest, show i.reactor = top from congrArg Site.reactor hsite]
    exact htop
  · exact htop.subtrees hmem
  · exact absurd hmem List.not_mem_nil

/-- Below the root lies what the top reactor unfolds to. -/
theorem unfoldsTo_children_of_elaborateFrom (h : p.elaborateFrom top = .ok t) :
    p.UnfoldsTo top (t.children.map Instance.toSite) := by
  have hroot := unfoldsTo_of_elaborateFrom h (i := t.root) (g := t.children) List.mem_cons_self
  rwa [root_reactor_of_elaborateFrom h] at hroot

theorem exists_reactor_of_elaborateFrom (h : p.elaborateFrom top = .ok t) {i : Instance}
    (hi : i ∈ t.instances) : ∃ r, p.reactor? i.reactor = some r := by
  obtain ⟨s, -, -, hs⟩ := (numbered_of_elaborateFrom h).exists_subtree? hi
  exact (unfoldsTo_of_elaborateFrom h hs).1

/-- An arena is the depth-first unfolding of a program from one of its reactors. -/
structure IsUnfolding (p : Program) (top : Nat) (t : InstanceTree) : Prop where
  /-- A slot holds the instance of its number. -/
  id_of_slot : ∀ k i, t.get? k = some i → i.id = k
  /-- Slot 0 is the root, an instance of the reactor that elaboration starts from. -/
  root_slot : t.get? 0 = some t.root ∧ t.root.reactor = top
  /-- The root alone has no parent. -/
  parent_eq_none_iff : ∀ i ∈ t.instances, i.parent = none ↔ i.id = 0
  /-- A parent has a smaller slot than its children. -/
  parent_lt : ∀ i ∈ t.instances, ∀ q, i.parent = some q → q < i.id
  /-- Children stand in increasing order. -/
  children_increasing : ∀ i ∈ t.instances, (t.childIds i.id).Pairwise (· < ·)
  /-- The children are the instances with that parent. -/
  mem_children_iff : ∀ i ∈ t.instances, ∀ c, c ∈ t.childIds i.id ↔ t.IsParent i.id c
  /-- The instances below one occupy the slots right after it. -/
  below_contiguous : ∀ i ∈ t.instances, ∃ n, ∀ c, t.IsBelow i.id c ↔ i.id < c ∧ c ≤ i.id + n
  /-- Every instance has a reactor of the program. -/
  reactor_lt : ∀ i ∈ t.instances, i.reactor < p.reactors.length
  /-- Every instantiation of a reactor with instances has a class and, if it has one, a width. -/
  resolved : ∀ i ∈ t.instances, ∀ r, p.reactor? i.reactor = some r → ∀ d ∈ r.instantiations,
    (∃ id, p.reactorId? d.reactorClass = some id) ∧ ∃ n, r.multiplicity? d = some n
  /-- The children of an instance are the sites that its reactor declares, in order. -/
  children_sites : ∀ i ∈ t.instances, ∀ r, p.reactor? i.reactor = some r →
    (t.childIds i.id).map (fun c => (t.get? c).map (·.toSite)) = (p.childSites r).map some

/-- The sites of the children of an instance, looked up by their numbers. -/
theorem children_sites_of_elaborateFrom (h : p.elaborateFrom top = .ok t) {i : Instance}
    {g : Forest Instance} (hg : (i, g) ∈ t.forest.subtrees) {r : Reactor}
    (hr : p.reactor? i.reactor = some r) :
    (t.childIds i.id).map (fun c => (t.get? c).map (·.toSite)) = (p.childSites r).map some := by
  have hnum := numbered_of_elaborateFrom h
  have htops := (unfoldsTo_of_elaborateFrom h hg).tops hr
  rw [Forest.tops_map] at htops
  rw [hnum.childIds_eq hg, ← htops, List.map_map, List.map_map]
  refine List.map_congr_left fun c hc => ?_
  have hmem : c ∈ t.instances := by
    rw [t.instances_eq]
    exact Forest.preorder_subset_of_mem_subtrees hg (g.tops_sublist_preorder.subset hc)
  rw [Function.comp_apply, Function.comp_apply, hnum.get?_id hmem]
  rfl

/-- Whatever elaboration returns is the depth-first unfolding of the program. -/
theorem elaborateFrom_isUnfolding (h : p.elaborateFrom top = .ok t) : p.IsUnfolding top t := by
  have hnum := numbered_of_elaborateFrom h
  have hcases : ∀ i ∈ t.instances, (i ∈ t.forest.tops ∧ i.parent = none) ∨
      ∃ q, i.parent = some q ∧ 0 ≤ q ∧ q < i.id := fun i hi => by
    rw [t.instances_eq] at hi
    exact hnum.parent_cases hi
  have ⟨hroot0, hrootParent, _, _⟩ := hnum
  constructor
  case id_of_slot => exact fun k i hk => (hnum.get?_eq_some_iff.mp hk).2
  case root_slot => exact ⟨rfl, root_reactor_of_elaborateFrom h⟩
  case parent_eq_none_iff =>
    intro i hi
    rcases hcases i hi with ⟨htop, hp⟩ | ⟨q, hq, -, hlt⟩
    · rw [List.mem_singleton.mp htop]
      exact ⟨fun _ => hroot0, fun _ => hrootParent⟩
    · rw [hq]
      exact ⟨fun h => absurd h (by simp), fun h => by omega⟩
  case parent_lt =>
    intro i hi q hq
    rcases hcases i hi with ⟨-, hp⟩ | ⟨q', hq', -, hlt⟩
    · exact absurd (hp.symm.trans hq) (by simp)
    · obtain rfl := Option.some.inj (hq.symm.trans hq')
      exact hlt
  case children_increasing =>
    intro i hi
    obtain ⟨s, -, -, hs⟩ := hnum.exists_subtree? hi
    exact hnum.childIds_pairwise hs
  case mem_children_iff =>
    intro i hi c
    obtain ⟨s, -, -, hs⟩ := hnum.exists_subtree? hi
    exact hnum.mem_childIds_iff hs
  case below_contiguous =>
    intro i hi
    obtain ⟨s, -, -, hs⟩ := hnum.exists_subtree? hi
    exact ⟨s.children.size, fun c => hnum.isBelow_iff hs⟩
  case reactor_lt =>
    intro i hi
    obtain ⟨r, hr⟩ := exists_reactor_of_elaborateFrom h hi
    exact (List.getElem?_eq_some_iff.mp hr).1
  case resolved =>
    intro i hi r hr
    obtain ⟨s, -, -, hs⟩ := hnum.exists_subtree? hi
    exact (unfoldsTo_of_elaborateFrom h hs).resolved hr
  case children_sites =>
    intro i hi r hr
    obtain ⟨s, -, -, hs⟩ := hnum.exists_subtree? hi
    exact children_sites_of_elaborateFrom h hs hr

/-- A bank of two members with an instance below each, and an instance after it. -/
def twoBanks : Program where
  reactors :=
    [{ name := "Leaf" },
     { name := "Mid", instantiations := [{ name := "leaf", reactorClass := "Leaf" }] },
     { name := "Main"
       parameters := [{ name := "n", init := [.literal "2"] }]
       instantiations :=
         [{ name := "mid", reactorClass := "Mid", width := some (.parameter "n") },
          { name := "last", reactorClass := "Leaf" }] }]

theorem elaborateFrom_isUnfolding_twoBanks :
    ∃ t, twoBanks.elaborateFrom 2 = .ok t ∧ t.childIds 0 = [1, 3, 5] ∧
      twoBanks.IsUnfolding 2 t := by
  have h : twoBanks.elaborateFrom 2 = .ok (.ofSites ⟨Text.lowercase "Main", 2, none⟩
      (.cons ⟨"mid", 1, some 0⟩ (.cons ⟨"leaf", 0, none⟩ .nil .nil)
        (.cons ⟨"mid", 1, some 1⟩ (.cons ⟨"leaf", 0, none⟩ .nil .nil)
          (.cons ⟨"last", 0, none⟩ .nil .nil)))) := by rfl
  exact ⟨_, h, by rfl, elaborateFrom_isUnfolding h⟩

end Program

end ReactorSynth
