import ReactorSynth.Proofs.ClassSearch

/-!
# What an expansion depends on

Of an instance that may write its class, only the name and the text of the class count. These are
the `candidates` of an expansion, in the order of the walk.

* **`expandClasses_congr`**: expansions with the same candidates have the same outcome, whatever
  their trees, federates and programs.
* `candidates_eq`: for a federate of the usual layout the candidates are read off the class of the
  root and the classes of the trees that the federate runs.
* `mem_classNames_iff`: the names written are those of the candidates.
-/

namespace ReactorSynth.Expansion

variable {x y : Expansion}

/-- The name and the text of the class at a position. -/
def classEntry (x : Expansion) (id : Nat) : String × Except GenError String :=
  (x.program.className id,
    match x.program.reactor? id with
    | none => .ok ""
    | some r => x.classText id r)

/-- The classes of the instances that may write, in the order of the walk. -/
def candidates (x : Expansion) : List (String × Except GenError String) :=
  (x.tree.instances.filter x.mayWrite).map fun i => x.classEntry i.reactor

theorem className_eq (x : Expansion) (i : Instance) :
    x.className i = (x.classEntry i.reactor).1 := rfl

theorem textOf_eq (x : Expansion) (i : Instance) : x.textOf i = (x.classEntry i.reactor).2 := rfl

/-- Writing depends on the names and texts of the classes alone. -/
theorem writeEach_congr {is js : List Instance} (s : EmittedClasses)
    (h : is.map (fun i => x.classEntry i.reactor) = js.map fun j => y.classEntry j.reactor) :
    x.writeEach is s = y.writeEach js s := by
  induction is generalizing js s with
  | nil =>
    obtain rfl : js = [] := by simpa using h
    rfl
  | cons i is ih =>
    cases js with
    | nil => simp at h
    | cons j js =>
      rw [List.map_cons, List.map_cons, List.cons.injEq] at h
      obtain ⟨hentry, hrest⟩ := h
      rw [writeEach, writeEach, textOf_eq, textOf_eq, className_eq, className_eq, hentry]
      simp only [ih _ hrest]

/-- The classes that an emission writes are the first of each name among the candidates. -/
theorem map_emission (x : Expansion) (s : EmittedClasses) :
    (x.emission s x.tree.instances).map (fun i => x.classEntry i.reactor) =
      firstOfEach Prod.fst s.names x.candidates := by
  rw [candidates, ← firstOfEach_image]
  rfl

/-- Expansions with the same candidates have the same outcome. -/
theorem expandClasses_congr (h : x.candidates = y.candidates) :
    x.expandClasses = y.expandClasses := by
  have hwrite : x.writeEach (x.emission {} x.tree.instances) {} =
      y.writeEach (y.emission {} y.tree.instances) {} := by
    refine writeEach_congr {} ?_
    rw [map_emission, map_emission, h]
  rw [expandClasses_eq, expandClasses_eq, hwrite]

/-- The instances that may write are the root and those of the trees that the federate runs, but
for instances of delay classes; here are their classes. -/
theorem candidates_eq {l : FederateLayout} {top : Nat}
    (htree : x.program.elaborateFrom top = .ok x.tree) (hfed : x.federate = l.toFederate) :
    x.candidates =
      ((top :: Program.reactorsOf ((x.tree.children.map Instance.toSite).keep l.ownsSite)).filter
        fun id => !x.options.isDelayClass (x.program.className id)).map x.classEntry := by
  have hclasses : top :: Program.reactorsOf ((x.tree.children.map Instance.toSite).keep l.ownsSite) =
      (x.tree.root :: (x.tree.children.keep fun i => l.ownsSite i.toSite).preorder).map
        (·.reactor) := by
    rw [List.map_cons, Program.root_reactor_of_elaborateFrom htree, Program.reactorsOf,
      ← Forest.map_keep, Forest.preorder_map, List.map_map]
    rfl
  rw [candidates, filter_mayWrite htree hfed, hclasses, List.filter_map, List.map_map]
  rfl

/-- The names written are those of the instances that may write. -/
theorem mem_classNames_iff {out : ExpandedClasses} (h : x.expandClasses = .ok out)
    {name : String} :
    name ∈ out.classNames ↔ ∃ i ∈ x.tree.instances, x.mayWrite i = true ∧ x.className i = name := by
  have hmem : name ∈ [] ++ (x.emission {} x.tree.instances).map x.className ↔
      name ∈ [] ∨ name ∈ (x.tree.instances.filter x.mayWrite).map x.className :=
    mem_append_firstOfEach
  rw [classNames_of_expandClasses h]
  simpa [and_assoc] using hmem

end ReactorSynth.Expansion
