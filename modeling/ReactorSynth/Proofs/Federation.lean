import ReactorSynth.Proofs.Candidates
import ReactorSynth.Proofs.Outcomes
import ReactorSynth.PythonClass

/-!
# Dividing a program among federates

The instantiations of the top reactor are divided among federates (`Reactor.DividedAmong`) when each
is run as a whole by one federate or, if it is a bank, member by member, and no federate runs
anything else.

* `exists_owner_of_site`: then exactly one federate runs each site below the root.
* `exists_tree_of_isBelow`: an instance and everything below it lie in one tree of the row below the
  root, so they have the same owners.
* **`generate_divided`**: every instance but the root has one owner, shared with all instances below
  it, and the federates together have the classes of the program as a whole.
-/

namespace ReactorSynth

/-- The federates that own the instance of a number. -/
def owners (ls : List FederateLayout) (t : InstanceTree) (id : Nat) : List FederateLayout :=
  ls.filter (·.owns t id)

/-- The federates that run an instantiation of a name, or members of such a bank. -/
def runners (ls : List FederateLayout) (name : String) : List FederateLayout :=
  ls.filter (·.instantiation == some name)

/-- Every federate runs an instantiation of the reactor, and every instantiation is run once: as a
whole, or each member of a bank by itself. -/
structure Reactor.DividedAmong (r : Reactor) (ls : List FederateLayout) : Prop where
  /-- No federate runs anything else. -/
  only : ∀ l ∈ ls, ∃ d ∈ r.instantiations, l.instantiation = some d.name
  /-- Nothing is left out or run twice. -/
  once : ∀ d ∈ r.instantiations,
    (runners ls d.name).map (·.bankIndex) = [none] ∨
      ∃ w n, d.width = some w ∧ r.widthValue? w = some n ∧
        ((runners ls d.name).map (·.bankIndex)).Perm ((List.range n).map some)

variable {p : Program} {t : InstanceTree} {top : Nat} {r : Reactor} {ls : List FederateLayout}

/-! ## Owners -/

/-- The federates that run a site are those among the runners of its instantiation that run all
members or the one of the site. -/
theorem filter_ownsSite (h : r.DividedAmong ls) (s : Site) :
    ls.filter (·.ownsSite s) =
      (runners ls s.name).filter fun l => l.bankIndex.isNone || s.bankIndex == l.bankIndex := by
  rw [runners, List.filter_filter]
  refine List.filter_congr fun l hl => ?_
  obtain ⟨d, -, hd⟩ := h.only l hl
  unfold FederateLayout.ownsSite
  rw [hd]
  simp [Bool.and_comm, BEq.comm]

/-- A site below the root is run by exactly one federate. -/
theorem exists_owner_of_site (h : r.DividedAmong ls) {s : Site} (hs : s ∈ p.childSites r) :
    ∃ l, ls.filter (·.ownsSite s) = [l] := by
  obtain ⟨d, hd, hs⟩ := List.mem_flatMap.mp hs
  rw [filter_ownsSite h, Program.name_of_mem_sitesOf hs]
  rcases h.once d hd with hwhole | ⟨w, n, hw, hn, hperm⟩
  · obtain ⟨l, hl, hnone⟩ := List.map_eq_singleton_iff.mp hwhole
    exact ⟨l, by rw [hl]; simp [hnone]⟩
  · -- The site is a member of the bank, and some federate has its index.
    obtain ⟨k, hk, hindex⟩ : ∃ k < n, s.bankIndex = some k := by
      unfold Program.sitesOf at hs
      split at hs
      · exact absurd hs List.not_mem_nil
      · simp only [Instantiation.sites, hw, hn, Option.getD_some, List.mem_map,
          List.mem_range] at hs
        obtain ⟨k, hk, rfl⟩ := hs
        exact ⟨k, hk, rfl⟩
    have hsome : ∀ l ∈ runners ls d.name,
        (l.bankIndex.isNone || s.bankIndex == l.bankIndex) = (l.bankIndex == some k) := by
      intro l hl
      obtain ⟨m, -, hm⟩ := List.mem_map.mp (hperm.subset (List.mem_map_of_mem hl))
      simp [← hm, hindex, BEq.comm]
    have hcount : ((runners ls d.name).filter (·.bankIndex == some k)).length = 1 := by
      rw [← List.countP_eq_length_filter]
      have hcountP := hperm.countP_eq (· == some k)
      rw [List.countP_map, List.countP_map] at hcountP
      refine hcountP.trans ?_
      have hrange : (List.range n).count k = 1 := by rw [List.count_range, if_pos hk]
      simpa [List.count, Function.comp_def] using hrange
    obtain ⟨l, hl⟩ := List.length_eq_one_iff.mp hcount
    exact ⟨l, by rw [List.filter_congr hsome, hl]⟩

theorem owners_root (h : r.DividedAmong ls) : owners ls t t.root.id = [] := by
  rw [owners, List.filter_eq_nil_iff]
  intro l hl
  obtain ⟨d, -, hd⟩ := h.only l hl
  simp [FederateLayout.owns, hd, t.topLevelAncestor?_root]

/-- The owners of an instance are the federates that run the child of the root above it. -/
theorem owners_eq (hnum : t.Numbered) {i j : Instance} {g : Forest Instance}
    (hi : (i, g) ∈ t.children.trees) (hj : j ∈ i :: g.preorder) :
    owners ls t j.id = ls.filter (·.ownsSite i.toSite) :=
  List.filter_congr fun l _ => l.owns_eq hnum hi hj

/-- An instance other than the root lies in a tree of the row below the root, with everything below
it. -/
theorem exists_tree_of_isBelow (hnum : t.Numbered) {i : Instance} (hi : i ∈ t.instances)
    (hne : i.id ≠ t.root.id) :
    ∃ a g, (a, g) ∈ t.children.trees ∧ i ∈ a :: g.preorder ∧
      ∀ c, t.IsBelow i.id c → ∃ j ∈ a :: g.preorder, j.id = c := by
  have hchild : i ∈ t.children.preorder := by
    rcases List.mem_cons.mp hi with rfl | hi
    · exact absurd rfl hne
    · exact hi
  obtain ⟨gi, hgi⟩ := Forest.exists_mem_subtrees hchild
  obtain ⟨a, g, hag, hsub⟩ := Forest.exists_tree_of_mem_subtrees hgi
  refine ⟨a, g, hag, hsub List.mem_cons_self, ?_⟩
  intro c hc
  have hforest : (i, gi) ∈ t.forest.subtrees :=
    List.mem_cons_of_mem _ (List.mem_append_left _ hgi)
  obtain ⟨hlt, hle⟩ := (hnum.isBelow_iff hforest).mp hc
  obtain ⟨j, hj, hid⟩ := (hnum.subtree hforest).1.exists_of_id (k := c) (by omega) (by omega)
  exact ⟨j, hsub (List.mem_cons_of_mem _ hj), hid⟩

/-- An instance other than the root has one owner, which owns everything below it too. -/
theorem exists_owner (h : p.elaborateFrom top = .ok t) (hr : p.reactor? top = some r)
    (hdiv : r.DividedAmong ls) {i : Instance} (hi : i ∈ t.instances) (hne : i.id ≠ t.root.id) :
    ∃ l, owners ls t i.id = [l] ∧ ∀ c, t.IsBelow i.id c → owners ls t c = [l] := by
  have hnum := Program.numbered_of_elaborateFrom h
  obtain ⟨a, g, hag, hmem, hbelow⟩ := exists_tree_of_isBelow hnum hi hne
  have hsite : a.toSite ∈ p.childSites r := by
    rw [← (Program.unfoldsTo_children_of_elaborateFrom h).tops hr, Forest.tops_map,
      ← Forest.map_fst_trees]
    exact List.mem_map_of_mem (List.mem_map_of_mem hag)
  obtain ⟨l, hl⟩ := exists_owner_of_site hdiv hsite
  refine ⟨l, (owners_eq hnum hag hmem).trans hl, ?_⟩
  intro c hc
  obtain ⟨j, hj, rfl⟩ := hbelow c hc
  exact (owners_eq hnum hag hj).trans hl

/-! ## Classes -/

/-- An instance may write its class in the program as a whole iff it may in some federate: the root
may in all of them, any other instance in the one that owns it. -/
theorem mayWrite_unfederated_iff (h : p.elaborateFrom top = .ok t) (hr : p.reactor? top = some r)
    (hdiv : r.DividedAmong ls) (hne : ls ≠ []) (emitter : ClassEmitter) (options : Options)
    {i : Instance} (hi : i ∈ t.instances) :
    (Expansion.mk p t FederateLayout.unfederated.toFederate emitter options).mayWrite i = true ↔
      ∃ l ∈ ls, (Expansion.mk p t l.toFederate emitter options).mayWrite i = true := by
  have hmay : ∀ l : FederateLayout, (Expansion.mk p t l.toFederate emitter options).mayWrite i =
      ((i.id == t.root.id || l.owns t i.id) && !options.isDelayClass (p.className i.reactor)) :=
    fun l => Expansion.mayWrite_eq (Program.exists_reactor_of_elaborateFrom h hi)
  have hwhole : FederateLayout.unfederated.owns t i.id = true := rfl
  simp only [hmay, hwhole, Bool.or_true, Bool.true_and, Bool.and_eq_true]
  constructor
  · intro hdelay
    by_cases hroot : i.id = t.root.id
    · obtain ⟨l, hl⟩ := List.exists_mem_of_ne_nil ls hne
      exact ⟨l, hl, by simp [hroot], hdelay⟩
    · obtain ⟨l, hl, -⟩ := exists_owner h hr hdiv hi hroot
      have hmem : l ∈ owners ls t i.id := by rw [hl]; exact List.mem_singleton_self l
      obtain ⟨hl, howns⟩ := List.mem_filter.mp hmem
      exact ⟨l, hl, by simp [howns], hdelay⟩
  · rintro ⟨l, -, -, hdelay⟩
    exact hdelay

/-- If the instantiations of the top reactor are divided among federates, then every instance but the
root has exactly one owner, shared with everything below it, and the root has none. If moreover the
program is free of errors, divided and as a whole, the federates together have the classes of the
whole. Names may repeat, among reactors and among instantiations. -/
theorem generate_divided (h : p.elaborateFrom top = .ok t) (hr : p.reactor? top = some r)
    (hdiv : r.DividedAmong ls) (hne : ls ≠ []) :
    (∀ i ∈ t.instances, i.id ≠ t.root.id → ∃ l, owners ls t i.id = [l]) ∧
    owners ls t t.root.id = [] ∧
    (∀ i ∈ t.instances, i.id ≠ t.root.id → ∀ c, t.IsBelow i.id c →
      owners ls t c = owners ls t i.id) ∧
    ∀ emitter options,
      (generate p t (ls.map (·.toFederate)) emitter options).hasError = false →
      (generateUnfederated p t emitter options).hasError = false →
      ∃ whole, (generateUnfederated p t emitter options).federates = [whole] ∧
        ∀ name, name ∈ whole.classNames ↔
          ∃ part ∈ (generate p t (ls.map (·.toFederate)) emitter options).federates,
            name ∈ part.classNames := by
  refine ⟨?_, owners_root hdiv, ?_, ?_⟩
  · intro i hi hroot
    obtain ⟨l, hl, -⟩ := exists_owner h hr hdiv hi hroot
    exact ⟨l, hl⟩
  · intro i hi hroot c hc
    obtain ⟨l, hl, hbelow⟩ := exists_owner h hr hdiv hi hroot
    rw [hl, hbelow c hc]
  · intro emitter options hparts hwhole
    have hparts : ∀ l ∈ ls, ∃ out,
        Expansion.expandClasses ⟨p, t, l.toFederate, emitter, options⟩ = .ok out := fun l hl =>
      hasError_generate_eq_false_iff.mp hparts _ (List.mem_map_of_mem hl)
    obtain ⟨out, hout⟩ := hasError_generate_eq_false_iff.mp hwhole _ (List.mem_singleton_self _)
    refine ⟨_, by rw [generateUnfederated, generate_singleton_of_ok hout], ?_⟩
    intro name
    simp only [mem_federates_generate_iff, List.mem_map]
    constructor
    · intro hname
      obtain ⟨i, hi, hmay, rfl⟩ := (Expansion.mem_classNames_iff hout).mp hname
      obtain ⟨l, hl, hmay⟩ := (mayWrite_unfederated_iff h hr hdiv hne emitter options hi).mp hmay
      obtain ⟨part, hpart⟩ := hparts l hl
      exact ⟨_, ⟨_, ⟨l, hl, rfl⟩, part, hpart, rfl⟩,
        (Expansion.mem_classNames_iff hpart).mpr ⟨i, hi, hmay, rfl⟩⟩
    · rintro ⟨_, ⟨_, ⟨l, hl, rfl⟩, part, hpart, rfl⟩, hname⟩
      obtain ⟨i, hi, hmay, rfl⟩ := (Expansion.mem_classNames_iff hpart).mp hname
      have hmay := (mayWrite_unfederated_iff h hr hdiv hne emitter options hi).mpr ⟨l, hl, hmay⟩
      exact (Expansion.mem_classNames_iff hout).mpr ⟨i, hi, hmay, rfl⟩

/-- A source in front of a bank of two stages, each with an instance of the class of the source. -/
def stagedPipeline : Program where
  reactors :=
    [{ name := "Leaf" },
     { name := "Stage", instantiations := [{ name := "leaf", reactorClass := "Leaf" }] },
     { name := "Main"
       isFederated := true
       instantiations :=
         [{ name := "source", reactorClass := "Leaf" },
          { name := "stage", reactorClass := "Stage", width := some (.literal 2) }] }]

/-- A federate for the source and one for each stage, in no particular order. -/
def pipelineParts : List FederateLayout :=
  [{ name := "stage_1", instantiation := some "stage", bankIndex := some 1 },
   { name := "source", instantiation := some "source" },
   { name := "stage_0", instantiation := some "stage", bankIndex := some 0 }]

theorem generate_divided_stagedPipeline :
    ∃ t, stagedPipeline.elaborateFrom 2 = .ok t ∧
      (∀ i ∈ t.instances, i.id ≠ 0 → ∃ l, owners pipelineParts t i.id = [l]) ∧
      ∃ whole, (generateUnfederated stagedPipeline t PythonClass.emitter {}).federates = [whole] ∧
        ∀ name, name ∈ whole.classNames ↔
          ∃ part ∈ (generate stagedPipeline t (pipelineParts.map (·.toFederate))
            PythonClass.emitter {}).federates, name ∈ part.classNames := by
  have htree : stagedPipeline.elaborateFrom 2 = .ok (.ofSites ⟨Text.lowercase "Main", 2, none⟩
      (.cons ⟨"source", 0, none⟩ .nil
        (.cons ⟨"stage", 1, some 0⟩ (.cons ⟨"leaf", 0, none⟩ .nil .nil)
          (.cons ⟨"stage", 1, some 1⟩ (.cons ⟨"leaf", 0, none⟩ .nil .nil) .nil)))) := by rfl
  have hdivided : Reactor.DividedAmong (stagedPipeline.reactors[2]) pipelineParts := by
    constructor
    · decide
    · intro d hd
      rcases List.mem_cons.mp hd with rfl | hd
      · exact Or.inl rfl
      · rw [List.mem_singleton.mp hd]
        exact Or.inr ⟨.literal 2, 2, rfl, rfl, List.Perm.swap _ _ []⟩
  obtain ⟨howners, -, -, hclasses⟩ := generate_divided htree rfl hdivided (List.cons_ne_nil _ _)
  exact ⟨_, htree, howners, hclasses PythonClass.emitter {} (by rfl) (by rfl)⟩

end ReactorSynth
