import ReactorSynth.Proofs.TopLevel
import ReactorSynth.Proofs.Walk

/-!
# Classes in the order of a search

A tree can hold far more instances than there are classes, yet the classes that an expansion writes
can be found without it. `classOrder` searches the classes depth first: from the top class through
the instantiations that leave instances, at the top through those of the federate alone, and never
enters a class twice.

* `search_tops`: searching from the roots of an unfolded forest enters the classes of the forest in
  depth first order. Below an entered class there is nothing new, since its instances all have the
  same forest below them (`Closed`).
* `search_sites`: the members of a bank are searched as their class once, and not at all if there
  are none.
* **`Expansion.classNames_eq_classOrder`**: an expansion writes the classes of the search in its
  order, without delay classes.
-/

namespace ReactorSynth

/-! ## The search -/

/-- Whether an instantiation leaves any instance. -/
def Reactor.isLive (r : Reactor) (i : Instantiation) : Bool := (r.multiplicity? i).any (0 < ·)

/-- Whether the federate runs an instantiation in the top reactor or, if it runs a single member of
a bank, one of its members. -/
def FederateLayout.follows (l : FederateLayout) (r : Reactor) (i : Instantiation) : Bool :=
  match l.instantiation with
  | none => true
  | some name =>
    i.name == name &&
      match l.bankIndex with
      | none => true
      | some k => i.width.isSome && (r.multiplicity? i).any (k < ·)

namespace Program

/-- The classes of some instantiations. -/
def classesOf (p : Program) (is : List Instantiation) : List Nat :=
  is.filterMap fun i => p.reactorId? i.reactorClass

/-- The classes that a class leads to. -/
def nextClasses (p : Program) (c : Nat) : List Nat :=
  match p.reactor? c with
  | none => []
  | some r => p.classesOf (r.instantiations.filter r.isLive)

/-- The number of classes that have not been entered. -/
def unentered (p : Program) (entered : List Nat) : Nat :=
  ((List.range p.reactors.length).filter (· ∉ entered)).length

theorem unentered_lt {p : Program} {entered : List Nat} {c : Nat} (hc : c < p.reactors.length)
    (hnew : c ∉ entered) : p.unentered (entered ++ [c]) < p.unentered entered := by
  have heq : (List.range p.reactors.length).filter (· ∉ entered ++ [c]) =
      ((List.range p.reactors.length).filter (· ∉ entered)).filter (· ≠ c) := by
    rw [List.filter_filter]
    refine List.filter_congr fun d _ => ?_
    rw [← Bool.decide_and, decide_eq_decide, List.mem_append, List.mem_singleton, not_or, and_comm]
  rw [unentered, unentered, heq, List.length_filter_lt_length_iff_exists]
  refine ⟨c, List.mem_filter.mpr ⟨List.mem_range.mpr hc, decide_eq_true hnew⟩, ?_⟩
  simp

/-- Enter the pending classes in order, depth first, behind those entered before. A class that has
been entered is passed over. -/
def search (p : Program) : (pending entered : List Nat) → List Nat
  | [], entered => entered
  | c :: pending, entered =>
    if c < p.reactors.length ∧ c ∉ entered then
      p.search (p.nextClasses c ++ pending) (entered ++ [c])
    else p.search pending entered
termination_by pending entered => (p.unentered entered, pending.length)
decreasing_by
  · rename_i h
    exact Prod.Lex.left _ _ (unentered_lt h.1 h.2)
  · exact Prod.Lex.right _ (Nat.lt_succ_self _)

/-- The classes that the search enters from a top reactor for the federate of a layout. -/
def classOrder (p : Program) (l : FederateLayout) (top : Nat) : List Nat :=
  match p.reactor? top with
  | none => []
  | some r =>
    p.search (p.classesOf (r.instantiations.filter fun i => r.isLive i && l.follows r i)) [top]

variable {p : Program} {entered : List Nat}

@[simp] theorem search_nil : p.search [] entered = entered := by
  rw [search]

theorem search_cons_of_new {c : Nat} {pending : List Nat} (hc : c < p.reactors.length)
    (hnew : c ∉ entered) : p.search (c :: pending) entered =
      p.search (p.nextClasses c ++ pending) (entered ++ [c]) := by
  rw [search, if_pos ⟨hc, hnew⟩]

theorem search_cons_of_entered {c : Nat} {pending : List Nat} (h : c ∈ entered) :
    p.search (c :: pending) entered = p.search pending entered := by
  rw [search, if_neg fun hnew => hnew.2 h]

/-- The classes pending first are searched out before the others. -/
theorem search_append (cs ds : List Nat) (entered : List Nat) :
    p.search (cs ++ ds) entered = p.search ds (p.search cs entered) := by
  induction cs, entered using search.induct p with
  | case1 entered => rw [List.nil_append, search_nil]
  | case2 c pending entered h ih =>
    rw [List.cons_append, search_cons_of_new h.1 h.2, search_cons_of_new h.1 h.2, ← ih,
      List.append_assoc]
  | case3 c pending entered h ih =>
    rw [List.cons_append, search, if_neg h, ih, search, if_neg h]

theorem search_cons (c : Nat) (cs entered : List Nat) :
    p.search (c :: cs) entered = p.search cs (p.search [c] entered) :=
  search_append [c] cs entered

theorem subset_search (cs entered : List Nat) : entered ⊆ p.search cs entered := by
  induction cs, entered using search.induct p with
  | case1 entered =>
    rw [search_nil]
    exact List.Subset.refl _
  | case2 c pending entered h ih =>
    rw [search_cons_of_new h.1 h.2]
    exact List.Subset.trans (List.subset_append_left _ _) ih
  | case3 c pending entered h ih =>
    rw [search, if_neg h]
    exact ih

/-- A class is entered at most once. -/
theorem nodup_search (cs : List Nat) (h : entered.Nodup) : (p.search cs entered).Nodup := by
  induction cs, entered using search.induct p with
  | case1 entered => rwa [search_nil]
  | case2 c pending entered hc ih =>
    rw [search_cons_of_new hc.1 hc.2]
    refine ih (List.nodup_append.mpr ⟨h, List.pairwise_singleton _ c, fun a ha b hb heq => ?_⟩)
    obtain rfl := List.mem_singleton.mp hb
    exact hc.2 (heq ▸ ha)
  | case3 c pending entered hc ih =>
    rw [search, if_neg hc]
    exact ih h

/-- The search for a federate enters no class twice. -/
theorem nodup_classOrder (p : Program) (l : FederateLayout) (top : Nat) :
    (p.classOrder l top).Nodup := by
  unfold classOrder
  split
  · exact List.nodup_nil
  · exact nodup_search _ (List.pairwise_singleton _ top)

theorem search_of_subset {cs : List Nat} (h : cs ⊆ entered) : p.search cs entered = entered := by
  induction cs with
  | nil => exact search_nil
  | cons c rest ih =>
    obtain ⟨hc, hrest⟩ := List.cons_subset.mp h
    rw [search_cons_of_entered hc, ih hrest]

/-- A class that is pending several times in a row is searched once. -/
theorem search_copies {cs : List Nat} {c : Nat} (hc : c < p.reactors.length) (hne : cs ≠ [])
    (h : ∀ d ∈ cs, d = c) (entered : List Nat) : p.search cs entered = p.search [c] entered := by
  cases cs with
  | nil => exact absurd rfl hne
  | cons d rest =>
    obtain rfl := h d List.mem_cons_self
    have hmem : d ∈ p.search [d] entered := by
      by_cases hnew : d ∈ entered
      · exact subset_search _ _ hnew
      · rw [search_cons_of_new hc hnew]
        exact subset_search _ _ (List.mem_append_right _ (List.mem_singleton_self d))
    rw [search_cons]
    refine search_of_subset fun b hb => ?_
    rw [h b (List.mem_cons_of_mem _ hb)]
    exact hmem

/-! ## Searching an unfolded forest -/

/-- The classes of some sites. -/
def reactorsOf (f : Forest Site) : List Nat := f.preorder.map (·.reactor)

/-- The instances of an entered class have nothing below them that has not been entered. -/
def Closed (f : Forest Site) (entered : List Nat) : Prop :=
  ∀ s g, (s, g) ∈ f.subtrees → s.reactor ∈ entered → reactorsOf g ⊆ entered

/-- A forest holds, below each of its sites, what the class of the site unfolds to. -/
def Unfolded (p : Program) (f : Forest Site) : Prop :=
  ∀ s g, (s, g) ∈ f.subtrees → p.UnfoldsTo s.reactor g

/-- Every instantiation of `is` has a class and leaves, of its sites, some with a property exactly
if it is selected. -/
def Selects (p : Program) (r : Reactor) (q : Site → Bool) (φ : Instantiation → Bool)
    (is : List Instantiation) : Prop :=
  ∀ i ∈ is, ∃ c, p.reactorId? i.reactorClass = some c ∧
    ((i.sites r c).filter q ≠ [] ↔ φ i = true)

variable {r : Reactor} {f : Forest Site}

theorem lt_of_reactorId {name : String} {c : Nat} (h : p.reactorId? name = some c) :
    c < p.reactors.length := by
  obtain ⟨r, hr, -⟩ := exists_reactor_of_reactorId h
  exact (List.getElem?_eq_some_iff.mp hr).1

/-- Searching from the sites with a property is searching from the selected instantiations. -/
theorem search_sites {q : Site → Bool} {φ : Instantiation → Bool} {is : List Instantiation}
    (h : p.Selects r q φ is) (entered : List Nat) :
    p.search (((is.flatMap (p.sitesOf r)).filter q).map (·.reactor)) entered =
      p.search (p.classesOf (is.filter φ)) entered := by
  induction is generalizing entered with
  | nil => rfl
  | cons i rest ih =>
    obtain ⟨c, hid, hsel⟩ := h i List.mem_cons_self
    have hrest := ih fun j hj => h j (List.mem_cons_of_mem i hj)
    have hsites : p.sitesOf r i = i.sites r c := by rw [sitesOf, hid]
    rw [List.flatMap_cons, List.filter_append, List.map_append, search_append, hrest, hsites]
    by_cases hφ : φ i = true
    · have hclasses : p.classesOf (i :: rest.filter φ) = c :: p.classesOf (rest.filter φ) := by
        rw [classesOf, List.filterMap_cons, hid]
        rfl
      have hne : ((i.sites r c).filter q).map (·.reactor) ≠ [] := by
        rw [Ne, List.map_eq_nil_iff]
        exact hsel.mpr hφ
      have hall : ∀ d ∈ ((i.sites r c).filter q).map (·.reactor), d = c := fun d hd => by
        obtain ⟨s, hs, rfl⟩ := List.mem_map.mp hd
        exact Instantiation.reactor_of_mem_sites (List.mem_filter.mp hs).1
      rw [search_copies (lt_of_reactorId hid) hne hall, List.filter_cons_of_pos hφ, hclasses,
        ← search_cons]
    · have hnil : (i.sites r c).filter q = [] := by
        by_cases hne : (i.sites r c).filter q = []
        · exact hne
        · exact absurd (hsel.mp hne) hφ
      rw [hnil, List.map_nil, search_nil, List.filter_cons_of_neg hφ]

/-- What lies below an instance is searched from the live instantiations of its class. -/
theorem search_nextClasses {c : Nat} (h : p.UnfoldsTo c f) (entered : List Nat) :
    p.search (p.nextClasses c) entered = p.search (f.tops.map (·.reactor)) entered := by
  obtain ⟨r, hr⟩ := h.1
  have hall : ∀ sites : List Site, sites.filter (fun _ => true) = sites := fun sites =>
    List.filter_eq_self.mpr fun _ _ => rfl
  have hsel : p.Selects r (fun _ => true) r.isLive r.instantiations := fun i hi => by
    obtain ⟨⟨c, hid⟩, n, hn⟩ := h.resolved hr i hi
    refine ⟨c, hid, ?_⟩
    have hlen := i.length_sites r c
    rw [hn, Option.getD_some] at hlen
    rw [hall, Reactor.isLive, hn, Option.any_some, decide_eq_true_iff, ← hlen,
      List.length_pos_iff]
  rw [h.tops hr, childSites, nextClasses, hr, ← search_sites hsel, hall]

/-- A forest stays closed when the class that it lies below is entered. -/
theorem closed_enter {c : Nat} (h : p.UnfoldsTo c f) (hc : Closed f entered) :
    Closed f (entered ++ [c]) := by
  intro s g hg hs
  rcases List.mem_append.mp hs with hs | hs
  · exact List.Subset.trans (hc s g hg hs) (List.subset_append_left _ _)
  · exact absurd (List.mem_singleton.mp hs) (h.reactor_ne hg)

/-- A forest stays closed when a class is entered with everything below it: whatever lies below an
instance of one of these classes has been entered too. -/
theorem closed_enterAll {c : Nat} {below : Forest Site} (h : p.UnfoldsTo c below)
    (hf : p.Unfolded f) (hc : Closed f entered) :
    Closed f (enterAll entered (c :: reactorsOf below)) := by
  intro s g hg hs d hd
  have hsg := hf s g hg
  rw [mem_enterAll] at hs ⊢
  rcases hs with hs | hs
  · exact Or.inl (hc s g hg hs hd)
  · refine Or.inr (List.mem_cons_of_mem _ ?_)
    rcases List.mem_cons.mp hs with heq | hs
    · rw [heq] at hsg
      rw [h.unique hsg]
      exact hd
    · obtain ⟨s', hs', heq⟩ := List.mem_map.mp hs
      obtain ⟨g', hg'⟩ := Forest.exists_mem_subtrees hs'
      have hsg' := h.subtrees hg'
      rw [show s'.reactor = s.reactor from heq] at hsg'
      rw [hsg.unique hsg'] at hd
      exact List.map_subset _ (Forest.preorder_subset_of_mem_subtrees hg') hd

/-- Searching from the roots of an unfolded forest enters the classes of the forest, depth first. -/
theorem search_tops (hf : p.Unfolded f) (hc : Closed f entered) :
    p.search (f.tops.map (·.reactor)) entered = enterAll entered (reactorsOf f) := by
  induction f generalizing entered with
  | nil => exact search_nil.trans (enterAll_of_subset (List.nil_subset entered)).symm
  | cons top below after ihb iha =>
    have htop : p.UnfoldsTo top.reactor below := hf top below List.mem_cons_self
    have hbelow : below.subtrees ⊆ (Forest.cons top below after).subtrees := fun t ht =>
      List.mem_cons_of_mem _ (List.mem_append_left _ ht)
    have hafter : after.subtrees ⊆ (Forest.cons top below after).subtrees := fun t ht =>
      List.mem_cons_of_mem _ (List.mem_append_right _ ht)
    have hfafter : p.Unfolded after := fun s g hg => hf s g (hafter hg)
    have hcafter : Closed after entered := fun s g hg => hc s g (hafter hg)
    have hsplit : reactorsOf (.cons top below after) =
        (top.reactor :: reactorsOf below) ++ reactorsOf after := by
      rw [reactorsOf, Forest.preorder, List.map_cons, List.map_append]
      rfl
    rw [Forest.tops, List.map_cons, search_cons, hsplit, enterAll_append]
    by_cases hmem : top.reactor ∈ entered
    · -- Everything below has been entered with the class.
      have hsub : top.reactor :: reactorsOf below ⊆ entered :=
        List.cons_subset.mpr ⟨hmem, hc top below List.mem_cons_self hmem⟩
      rw [search_cons_of_entered hmem, search_nil, enterAll_of_subset hsub]
      exact iha hfafter hcafter
    · obtain ⟨r, hr⟩ := htop.1
      have hlt : top.reactor < p.reactors.length := (List.getElem?_eq_some_iff.mp hr).1
      have hclosed : Closed below (entered ++ [top.reactor]) :=
        closed_enter htop fun s g hg => hc s g (hbelow hg)
      rw [search_cons_of_new hlt hmem, List.append_nil, search_nextClasses htop,
        ihb (fun s g hg => hf s g (hbelow hg)) hclosed, ← enterAll_cons_of_not_mem hmem]
      exact iha hfafter (closed_enterAll htop hfafter hcafter)

theorem lt_of_mem_reactorsOf (hf : p.Unfolded f) {c : Nat} (hc : c ∈ reactorsOf f) :
    c < p.reactors.length := by
  obtain ⟨s, hs, rfl⟩ := List.mem_map.mp hc
  obtain ⟨g, hg⟩ := Forest.exists_mem_subtrees hs
  obtain ⟨r, hr⟩ := (hf s g hg).1
  exact (List.getElem?_eq_some_iff.mp hr).1

/-! ## The search for a federate -/

/-- An instantiation has sites that the federate runs if it has any and the federate follows it. -/
theorem ownsSite_iff_follows (l : FederateLayout) {i : Instantiation} {c n : Nat}
    (hn : r.multiplicity? i = some n) : (i.sites r c).filter l.ownsSite ≠ [] ↔
      (r.isLive i && l.follows r i) = true := by
  have hmem : (i.sites r c).filter l.ownsSite ≠ [] ↔ ∃ s ∈ i.sites r c, l.ownsSite s = true := by
    simp [List.filter_eq_nil_iff]
  have hpos : (∃ k, k < n) ↔ 0 < n := ⟨fun ⟨k, hk⟩ => by omega, fun h => ⟨0, h⟩⟩
  rw [hmem, Instantiation.exists_mem_sites_iff hn, Reactor.isLive, FederateLayout.follows, hn,
    Option.any_some]
  unfold FederateLayout.ownsSite
  cases l.instantiation with
  | none => simp [hpos]
  | some name =>
    cases l.bankIndex with
    | none => simp [hpos, and_comm]
    | some k =>
      cases i.width with
      | none => simp
      | some w =>
        simp only [Option.map_some, Option.isNone_some, Bool.false_or, Bool.and_eq_true,
          beq_iff_eq, Option.some.injEq, Option.isSome_some, Option.any_some, Bool.true_and,
          decide_eq_true_eq]
        constructor
        · rintro ⟨k, hk, hname, rfl⟩
          exact ⟨by omega, hname, hk⟩
        · rintro ⟨-, hname, hk⟩
          exact ⟨k, hk, hname, rfl⟩

/-- The search for a federate enters the top class and the classes of the trees that the federate
runs, depth first. -/
theorem classOrder_eq (l : FederateLayout) {top : Nat} (h : p.UnfoldsTo top f) :
    p.classOrder l top = firstOfEach id [] (top :: reactorsOf (f.keep l.ownsSite)) := by
  obtain ⟨r, hr⟩ := h.1
  have hsel : p.Selects r l.ownsSite (fun i => r.isLive i && l.follows r i) r.instantiations :=
    fun i hi => by
      obtain ⟨⟨c, hid⟩, n, hn⟩ := h.resolved hr i hi
      exact ⟨c, hid, ownsSite_iff_follows l hn⟩
  have hf : p.Unfolded (f.keep l.ownsSite) := fun s g hg =>
    h.subtrees (f.subtrees_keep_subset l.ownsSite hg)
  have hc : Closed (f.keep l.ownsSite) [top] := fun s g hg hs =>
    absurd (List.mem_singleton.mp hs) (h.reactor_ne (f.subtrees_keep_subset l.ownsSite hg))
  have htops : p.search ((f.keep l.ownsSite).tops.map (·.reactor)) [top] =
      enterAll [top] (reactorsOf (f.keep l.ownsSite)) := search_tops hf hc
  rw [Forest.tops_keep, h.tops hr, childSites, search_sites hsel] at htops
  rw [classOrder, hr]
  refine htops.trans ?_
  rw [firstOfEach, if_neg List.not_mem_nil]
  rfl

/-! ## Names -/

/-- With distinct names, a name tells the class. -/
theorem className_injective (hnames : (p.reactors.map (·.name)).Nodup) {a b : Nat}
    (ha : a < p.reactors.length) (hb : b < p.reactors.length)
    (h : p.className a = p.className b) : a = b := by
  have hname : ∀ {c : Nat}, c < p.reactors.length →
      (p.reactors.map (·.name))[c]? = some (p.className c) := by
    intro c hc
    rw [className, reactor?, List.getElem?_map, List.getElem?_eq_getElem hc]
    rfl
  have hlt : a < (p.reactors.map (·.name)).length := by
    rw [List.length_map]
    exact ha
  exact (List.getElem?_inj hlt hnames).mp (by rw [hname ha, hname hb, h])

end Program

/-! ## Expansions -/

namespace Expansion

variable {x : Expansion}

/-- An expansion that does not fail has written the names of the emission of the whole tree. -/
theorem classNames_of_expandClasses {out : ExpandedClasses} (h : x.expandClasses = .ok out) :
    out.classNames = (x.emission {} x.tree.instances).map x.className := by
  have hrun : ((x.expandSubtree x.tree).outcome {}).1.map
      (fun source => ExpandedClasses.mk source ((x.expandSubtree x.tree).outcome {}).2.names) =
        .ok out := h
  rw [outcome_expandSubtree] at hrun
  cases hwrite : x.writeEach (x.emission {} x.tree.instances) {} with
  | mk result s =>
    rw [hwrite] at hrun
    cases result with
    | error e => exact absurd hrun (by simp [Except.map])
    | ok source =>
      rw [← Except.ok.inj hrun]
      exact names_of_writeEach hwrite

theorem mayWrite_eq {i : Instance} (h : ∃ r, x.program.reactor? i.reactor = some r) :
    x.mayWrite i = ((i.id == x.tree.root.id || x.federate.owns x.tree i.id) &&
      !x.options.isDelayClass (x.className i)) := by
  obtain ⟨r, hr⟩ := h
  rw [mayWrite, className, Program.className, hr]
  rfl

/-- The instances that may write are the root and those of the trees that the federate runs, but
for instances of delay classes. -/
theorem filter_mayWrite {l : FederateLayout} {top : Nat}
    (htree : x.program.elaborateFrom top = .ok x.tree) (hfed : x.federate = l.toFederate) :
    x.tree.instances.filter x.mayWrite =
      (x.tree.root :: (x.tree.children.keep fun i => l.ownsSite i.toSite).preorder).filter
        fun i => !x.options.isDelayClass (x.className i) := by
  have hnum := Program.numbered_of_elaborateFrom htree
  have ⟨hroot, _, hchildren, _⟩ := hnum
  have howned : x.tree.children.preorder.filter
      (fun i => i.id == x.tree.root.id || x.federate.owns x.tree i.id) =
        (x.tree.children.keep fun i => l.ownsSite i.toSite).preorder := by
    rw [← l.filter_owns hnum]
    refine List.filter_congr fun i hi => ?_
    have hlt := (hchildren.id_bounds hi).1
    rw [show (i.id == x.tree.root.id) = false from beq_eq_false_iff_ne.mpr (by omega), hfed]
    rfl
  rw [← howned, ← List.filter_cons_of_pos (a := x.tree.root)
    (p := fun i => i.id == x.tree.root.id || x.federate.owns x.tree i.id)
    (by rw [beq_self_eq_true, Bool.true_or]), List.filter_filter]
  refine List.filter_congr fun i hi => ?_
  rw [mayWrite_eq (Program.exists_reactor_of_elaborateFrom htree hi), Bool.and_comm]

/-- In a program whose classes have distinct names, what an expansion writes for a federate of the
usual layout is the classes that the search from the top class enters, in that order and without
delay classes. -/
theorem classNames_eq_classOrder {l : FederateLayout} {top : Nat} {out : ExpandedClasses}
    (hnames : (x.program.reactors.map (·.name)).Nodup)
    (htree : x.program.elaborateFrom top = .ok x.tree) (hfed : x.federate = l.toFederate)
    (hout : x.expandClasses = .ok out) :
    out.classNames = ((x.program.classOrder l top).map x.program.className).filter
      fun name => !x.options.isDelayClass name := by
  have hroot := Program.root_reactor_of_elaborateFrom htree
  have hunfold : x.program.UnfoldsTo top (x.tree.children.map Instance.toSite) := by
    have := Program.unfoldsTo_of_elaborateFrom htree (i := x.tree.root) (g := x.tree.children)
      List.mem_cons_self
    rwa [hroot] at this
  -- The classes of the instances that are the root or owned, in the order of the walk.
  have hkept : (x.tree.root ::
      (x.tree.children.keep fun i => l.ownsSite i.toSite).preorder).map x.className =
        (top :: Program.reactorsOf
          ((x.tree.children.map Instance.toSite).keep l.ownsSite)).map x.program.className := by
    rw [← Forest.map_keep, Program.reactorsOf, Forest.preorder_map, List.map_cons, List.map_cons,
      List.map_map, List.map_map, ← hroot]
    rfl
  have hlt : ∀ c ∈ top :: Program.reactorsOf
      ((x.tree.children.map Instance.toSite).keep l.ownsSite), c < x.program.reactors.length := by
    intro c hc
    rcases List.mem_cons.mp hc with rfl | hc
    · obtain ⟨r, hr⟩ := hunfold.1
      exact (List.getElem?_eq_some_iff.mp hr).1
    · exact Program.lt_of_mem_reactorsOf
        (fun s g hg => hunfold.subtrees (Forest.subtrees_keep_subset _ l.ownsSite hg)) hc
  have hnames' : (x.tree.instances.filter x.mayWrite).map x.className =
      ((top :: Program.reactorsOf ((x.tree.children.map Instance.toSite).keep l.ownsSite)).map
        x.program.className).filter fun name => !x.options.isDelayClass name := by
    rw [filter_mayWrite htree hfed, ← hkept, List.filter_map]
    rfl
  rw [classNames_of_expandClasses hout, emission, map_firstOfEach, hnames',
    Program.classOrder_eq l hunfold, firstOfEach_filter _ fun k _ => Iff.rfl]
  refine congrArg _ (firstOfEach_map [] _ fun a ha b hb => ?_)
  exact Program.className_injective hnames (hlt a ha) (hlt b hb)

/-- A federate that runs the second of two wrappers; there is a delay in them, a bank without
members before them and an instance of another federate after them. -/
def secondMember : Expansion where
  program :=
    { reactors :=
        [{ name := "Leaf" },
         { name := "_lf_GenDelay_0"
           instantiations := [{ name := "leaf", reactorClass := "Leaf" }] },
         { name := "Wrapper"
           instantiations :=
             [{ name := "delay", reactorClass := "_lf_GenDelay_0" },
              { name := "leaf", reactorClass := "Leaf" }] },
         { name := "Spare" },
         { name := "Main"
           instantiations :=
             [{ name := "idle", reactorClass := "Spare", width := some (.literal 0) },
              { name := "wrapper", reactorClass := "Wrapper", width := some (.literal 2) },
              { name := "spare", reactorClass := "Spare" }] }] }
  tree :=
    .ofSites ⟨Text.lowercase "Main", 4, none⟩
      ((Forest.replicate
          (.cons ⟨"delay", 1, none⟩ (.cons ⟨"leaf", 0, none⟩ .nil .nil)
            (.cons ⟨"leaf", 0, none⟩ .nil .nil))
          [⟨"wrapper", 2, some 0⟩, ⟨"wrapper", 2, some 1⟩]).append
        (.cons ⟨"spare", 3, none⟩ .nil .nil))
  federate :=
    FederateLayout.toFederate { name := "w", instantiation := some "wrapper", bankIndex := some 1 }
  emitter := outline
  options := {}

theorem classNames_eq_classOrder_secondMember :
    ∃ out, secondMember.expandClasses = .ok out ∧
      out.classNames = ["Main", "Wrapper", "Leaf"] ∧
      secondMember.program.classOrder
        { name := "w", instantiation := some "wrapper", bankIndex := some 1 } 4 = [4, 2, 1, 0] := by
  have hnames : (secondMember.program.reactors.map (·.name)).Nodup := by decide
  have htree : secondMember.program.elaborateFrom 4 = .ok secondMember.tree := by rfl
  have horder : secondMember.program.classOrder
      { name := "w", instantiation := some "wrapper", bankIndex := some 1 } 4 = [4, 2, 1, 0] := by
    have htop : secondMember.program.classOrder
        { name := "w", instantiation := some "wrapper", bankIndex := some 1 } 4 =
          secondMember.program.search [2] [4] := rfl
    have hwrapper : secondMember.program.nextClasses 2 = [1, 0] := rfl
    have hdelay : secondMember.program.nextClasses 1 = [0] := rfl
    have hleaf : secondMember.program.nextClasses 0 = [] := rfl
    simp [htop, Program.search, hwrapper, hdelay, hleaf,
      show secondMember.program.reactors.length = 5 from rfl]
  obtain ⟨out, hout⟩ : ∃ out, secondMember.expandClasses = .ok out := ⟨_, rfl⟩
  refine ⟨out, hout, ?_, horder⟩
  rw [classNames_eq_classOrder hnames htree rfl hout, horder]
  rfl

end Expansion

end ReactorSynth
