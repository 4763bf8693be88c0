import ReactorSynth.Expansion
import ReactorSynth.Proofs.Arena
import ReactorSynth.Proofs.FirstOfEach

/-!
# What a walk writes

An expansion walks a subtree and decides at each instance, by the classes written so far, whether
to write. Here the decision is taken beforehand, on the list of the instances in walking order:
`emission` keeps of the eligible ones the first of each class name that is not yet written.

* `outcome_expandSubtree`: the walk writes the classes of the emission, one after the other, and
  ends at the first that fails (`writeEach`).
* **`expandSubtree_emission`**: if none fails, the text is that of the classes of the emission in
  their order, and their names are added to those written.
-/

namespace ReactorSynth

/-- The instances of the subtree of a number, depth first. -/
def InstanceTree.walk (t : InstanceTree) (id : Nat) : List Instance :=
  match t.subtree? id with
  | none => []
  | some s => s.instances

/-- A walk visits an instance and then walks from its children in their order. -/
theorem InstanceTree.Numbered.walk_eq {t : InstanceTree} (h : t.Numbered) {i : Instance}
    (hi : i ∈ t.instances) : t.walk i.id = i :: (t.childIds i.id).flatMap t.walk := by
  have hwalk : ∀ {j : Instance} {g : Forest Instance}, (j, g) ∈ t.forest.subtrees →
      t.walk j.id = j :: g.preorder := fun {j g} hg => by
    have hs : t.subtree? j.id = some ⟨j, g⟩ := h.subtree?_eq_some_iff.mpr ⟨hg, rfl⟩
    rw [walk, hs]
    rfl
  obtain ⟨s, -, -, hs⟩ := h.exists_subtree? hi
  rw [hwalk hs, h.childIds_eq hs, ← Forest.map_fst_trees, List.map_map, List.flatMap_map,
    Forest.preorder_eq_flatMap]
  congr 1
  refine congrArg List.flatten (List.map_congr_left fun u hu => ?_)
  exact (hwalk (Forest.subtrees_subset_of_mem hs (Forest.trees_subset_subtrees _ hu))).symm

/-- The name of the reactor at a position. -/
def Program.className (p : Program) (id : Nat) : String :=
  match p.reactor? id with
  | none => ""
  | some r => r.name

/-! ## Outcomes of walks -/

namespace WalkM

variable {α β : Type}

/-- How a walk ends that starts from some written classes, and the classes written then. -/
def outcome (m : WalkM α) (s : EmittedClasses) : Except GenError α × EmittedClasses :=
  m.run.run s

@[simp] theorem outcome_pure (a : α) (s : EmittedClasses) :
    outcome (pure a) s = (.ok a, s) := rfl

/-- A walk goes on where its first part ends, unless that fails. -/
theorem outcome_bind (m : WalkM α) (k : α → WalkM β) (s : EmittedClasses) :
    outcome (m >>= k) s =
      match outcome m s with
      | (.ok a, s') => outcome (k a) s'
      | (.error e, s') => (.error e, s') := by
  have hbind : outcome (m >>= k) s = ExceptT.bindCont k (outcome m s).1 (outcome m s).2 := rfl
  rw [hbind]
  cases outcome m s with
  | mk result s' =>
    cases result with
    | ok a => rfl
    | error e => rfl

end WalkM

namespace Expansion

/-! ## The emission -/

/-- The name of the class of an instance. -/
def className (x : Expansion) (i : Instance) : String := x.program.className i.reactor

/-- Whether an instance may write its class: it is the root or owned, and of no delay class. -/
def mayWrite (x : Expansion) (i : Instance) : Bool :=
  match x.program.reactor? i.reactor with
  | none => false
  | some r => x.isEligible i.id r

/-- The text of the class of an instance. -/
def textOf (x : Expansion) (i : Instance) : Except GenError String :=
  match x.program.reactor? i.reactor with
  | none => .ok ""
  | some r => x.classText i.reactor r

/-- Of some instances those that write: the first that may for each class not yet written. -/
def emission (x : Expansion) (s : EmittedClasses) (is : List Instance) : List Instance :=
  firstOfEach x.className s.names (is.filter x.mayWrite)

/-- How writing the classes of some instances one after the other ends, and the classes written
then. -/
def writeEach (x : Expansion) : List Instance → EmittedClasses →
    Except GenError String × EmittedClasses
  | [], s => (.ok "", s)
  | i :: rest, s =>
    match x.textOf i with
    | .error e => (.error e, s)
    | .ok text =>
      let (outcome, s') := x.writeEach rest ⟨s.names ++ [x.className i]⟩
      (outcome.map (text ++ ·), s')

/-- Visit some instances in order. -/
def visitAll (x : Expansion) : List Instance → WalkM String
  | [] => return ""
  | i :: rest => do
    let first ← x.visit i
    let others ← x.visitAll rest
    return first ++ others

variable {x : Expansion}

/-! ## The walk writes the emission -/

theorem visitAll_append (x : Expansion) (is js : List Instance) :
    x.visitAll (is ++ js) = do
      let first ← x.visitAll is
      let others ← x.visitAll js
      return first ++ others := by
  induction is with
  | nil =>
    simp only [List.nil_append, visitAll, pure_bind, String.empty_append, bind_pure]
  | cons i rest ih =>
    simp only [List.cons_append, visitAll, ih, bind_assoc, pure_bind, String.append_assoc]

/-- Walking a forest is visiting its instances depth first. -/
theorem expandForest_eq_visitAll (x : Expansion) (f : Forest Instance) :
    x.expandForest f = x.visitAll f.preorder := by
  induction f with
  | nil => rfl
  | cons top below after ihb iha =>
    rw [expandForest, Forest.preorder, visitAll, visitAll_append, ihb, iha]
    simp only [bind_assoc, pure_bind]

theorem expandSubtree_eq_visitAll (x : Expansion) (t : InstanceTree) :
    x.expandSubtree t = x.visitAll t.instances := by
  rw [expandSubtree, expandForest_eq_visitAll, t.instances_eq]
  rfl

/-- A visit adds nothing if the instance may not write or its class is written already. -/
theorem outcome_visit_skip {i : Instance} {s : EmittedClasses}
    (h : x.mayWrite i = true → x.className i ∈ s.names) :
    (x.visit i).outcome s = (.ok "", s) := by
  unfold mayWrite className Program.className at h
  unfold visit
  cases hr : x.program.reactor? i.reactor with
  | none => rfl
  | some r =>
    rw [hr] at h
    have hskip : (!x.isEligible i.id r || s.contains r.name) = true := by
      cases hel : x.isEligible i.id r with
      | false => rfl
      | true => exact List.contains_iff_mem.mpr (h hel)
    rw [WalkM.outcome_bind]
    exact congrArg (WalkM.outcome · s) (if_pos hskip)

/-- A visit to an instance that may write a new class writes it, or ends the walk. -/
theorem outcome_visit_write {i : Instance} {s : EmittedClasses} (h : x.mayWrite i = true)
    (hnew : x.className i ∉ s.names) :
    (x.visit i).outcome s =
      match x.textOf i with
      | .error e => (.error e, s)
      | .ok text => (.ok text, ⟨s.names ++ [x.className i]⟩) := by
  unfold mayWrite at h
  unfold className Program.className at hnew ⊢
  unfold visit textOf
  cases hr : x.program.reactor? i.reactor with
  | none =>
    rw [hr] at h
    exact absurd h (by simp)
  | some r =>
    rw [hr] at h hnew
    have hcontains : s.contains r.name = false := by
      rw [EmittedClasses.contains, ← Bool.not_eq_true, List.contains_iff_mem]
      exact hnew
    have hwrite : ¬ (!x.isEligible i.id r || s.contains r.name) = true := by
      rw [hcontains, show x.isEligible i.id r = true from h]
      simp
    have hinsert : s.insert r.name = ⟨s.names ++ [r.name]⟩ := by
      rw [EmittedClasses.insert, hcontains]
      rfl
    rw [WalkM.outcome_bind]
    refine (congrArg (WalkM.outcome · s) (if_neg hwrite)).trans ?_
    rw [WalkM.outcome_bind]
    simp only [← hinsert]
    cases x.classText i.reactor r <;> rfl

/-- A walk visits its instances as if it wrote the emission. -/
theorem outcome_visitAll (x : Expansion) (is : List Instance) (s : EmittedClasses) :
    (x.visitAll is).outcome s = x.writeEach (x.emission s is) s := by
  induction is generalizing s with
  | nil => rfl
  | cons i rest ih =>
    rw [visitAll, WalkM.outcome_bind]
    by_cases hmay : x.mayWrite i = true
    · by_cases hnew : x.className i ∈ s.names
      · rw [outcome_visit_skip fun _ => hnew]
        have hem : x.emission s (i :: rest) = x.emission s rest := by
          rw [emission, List.filter_cons_of_pos hmay, firstOfEach, if_pos hnew]
          rfl
        simp only [WalkM.outcome_bind, WalkM.outcome_pure, String.empty_append, ih, hem]
        cases x.writeEach (x.emission s rest) s with
        | mk result s' => cases result <;> rfl
      · rw [outcome_visit_write hmay hnew]
        have hem : x.emission s (i :: rest) =
            i :: x.emission ⟨s.names ++ [x.className i]⟩ rest := by
          rw [emission, List.filter_cons_of_pos hmay, firstOfEach, if_neg hnew]
          rfl
        rw [hem, writeEach]
        cases x.textOf i with
        | error e => rfl
        | ok text =>
          simp only [WalkM.outcome_bind, WalkM.outcome_pure, ih]
          cases x.writeEach (x.emission ⟨s.names ++ [x.className i]⟩ rest) _ with
          | mk result s' => cases result <;> rfl
    · rw [outcome_visit_skip fun h => absurd h hmay]
      have hem : x.emission s (i :: rest) = x.emission s rest := by
        rw [emission, List.filter_cons_of_neg hmay]
        rfl
      simp only [WalkM.outcome_bind, WalkM.outcome_pure, String.empty_append, ih, hem]
      cases x.writeEach (x.emission s rest) s with
      | mk result s' => cases result <;> rfl

/-- An expansion of a subtree writes the emission of its instances. -/
theorem outcome_expandSubtree (x : Expansion) (t : InstanceTree) (s : EmittedClasses) :
    (x.expandSubtree t).outcome s = x.writeEach (x.emission s t.instances) s := by
  rw [expandSubtree_eq_visitAll, outcome_visitAll]

/-- The classes of a tree are those of the emission of all its instances. -/
theorem expandClasses_eq (x : Expansion) :
    x.expandClasses =
      (x.writeEach (x.emission {} x.tree.instances) {}).1.map fun source =>
        ⟨source, (x.writeEach (x.emission {} x.tree.instances) {}).2.names⟩ := by
  rw [← outcome_expandSubtree]
  rfl

/-! ## Emissions without failures -/

theorem writeEach_of_ok {is : List Instance} {s : EmittedClasses} {text : Instance → String}
    (h : ∀ i ∈ is, x.textOf i = .ok (text i)) :
    x.writeEach is s =
      (.ok (String.join (is.map text)), ⟨s.names ++ is.map x.className⟩) := by
  induction is generalizing s with
  | nil => rw [writeEach, List.map_nil, List.map_nil, List.append_nil]; rfl
  | cons i rest ih =>
    rw [writeEach, h i List.mem_cons_self, ih fun j hj => h j (List.mem_cons_of_mem i hj)]
    simp [Except.map, List.append_assoc]

/-- A walk that does not fail has written the names of its emission. -/
theorem names_of_writeEach {is : List Instance} {s s' : EmittedClasses} {source : String}
    (h : x.writeEach is s = (.ok source, s')) : s'.names = s.names ++ is.map x.className := by
  induction is generalizing s source with
  | nil =>
    obtain ⟨-, rfl⟩ := Prod.mk.inj h
    rw [List.map_nil, List.append_nil]
  | cons i rest ih =>
    rw [writeEach] at h
    cases htext : x.textOf i with
    | error e =>
      rw [htext] at h
      exact absurd (Prod.mk.inj h).1 (by simp)
    | ok text =>
      rw [htext] at h
      cases hrest : x.writeEach rest ⟨s.names ++ [x.className i]⟩ with
      | mk result s'' =>
        rw [hrest] at h
        obtain ⟨hresult, rfl⟩ := Prod.mk.inj h
        cases result with
        | error e => exact absurd hresult (by simp [Except.map])
        | ok others => rw [ih hrest, List.map_cons, List.append_assoc, List.singleton_append]

theorem className_of_mayWrite {i : Instance} (h : x.mayWrite i = true) :
    x.options.isDelayClass (x.className i) = false := by
  unfold mayWrite at h
  unfold className Program.className
  cases hr : x.program.reactor? i.reactor with
  | none =>
    rw [hr] at h
    exact absurd h (by simp)
  | some r =>
    rw [hr] at h
    simpa using (Bool.and_eq_true_iff.mp h).2

/-- Expanding an instance, from any classes already written, when no class of its emission fails:
the subtree is walked from the instance through its children, in order; the text is that of the
classes of the emission and their names are recorded, both in the order of the walk; and in this
way every class that may be written is written exactly once, and no delay class. -/
theorem expandSubtree_emission {top : Nat} (h : x.program.elaborateFrom top = .ok x.tree)
    {i : Instance} (hi : i ∈ x.tree.instances) (s : EmittedClasses) {text : Instance → String}
    (htext : ∀ j ∈ x.emission s (x.tree.walk i.id), x.textOf j = .ok (text j)) :
    x.tree.walk i.id = i :: (x.tree.childIds i.id).flatMap x.tree.walk ∧
      (∃ t, x.tree.subtree? i.id = some t ∧
        (x.expandSubtree t).outcome s =
          (.ok (String.join ((x.emission s (x.tree.walk i.id)).map text)),
            ⟨s.names ++ (x.emission s (x.tree.walk i.id)).map x.className⟩)) ∧
      ((x.emission s (x.tree.walk i.id)).map x.className).Nodup ∧
      (∀ j ∈ x.emission s (x.tree.walk i.id), x.className j ∉ s.names ∧
        x.options.isDelayClass (x.className j) = false) ∧
      ∀ j ∈ x.tree.walk i.id, x.mayWrite j = true →
        x.className j ∈ s.names ++ (x.emission s (x.tree.walk i.id)).map x.className := by
  have hnum := Program.numbered_of_elaborateFrom h
  obtain ⟨t, ht, -, -⟩ := hnum.exists_subtree? hi
  obtain ⟨hnodup, hnew⟩ := nodup_firstOfEach x.className s.names
    ((x.tree.walk i.id).filter x.mayWrite)
  refine ⟨hnum.walk_eq hi, ⟨t, ht, ?_⟩, hnodup, fun j hj => ⟨hnew j hj, ?_⟩, fun j hj hmay => ?_⟩
  · have hwalk : x.tree.walk i.id = t.instances := by rw [InstanceTree.walk, ht]
    rw [hwalk] at htext ⊢
    rw [outcome_expandSubtree, writeEach_of_ok htext]
  · have hmem := (firstOfEach_sublist x.className s.names _).subset hj
    exact className_of_mayWrite (List.mem_filter.mp hmem).2
  · exact mem_append_firstOfEach.mpr
      (Or.inr (List.mem_map_of_mem (List.mem_filter.mpr ⟨hj, hmay⟩)))

/-- An emitter that writes one line for each class. -/
def outline : ClassEmitter where
  header ctx := modify (·.line ("class " ++ ctx.reactor.name))
  preamble _ := pure ()
  constructor _ := pure ()
  getters _ := pure ()
  reactions _ _ := pure ()

theorem textOf_of_outline (hx : x.emitter = outline) (i : Instance) :
    x.textOf i = .ok ((x.textOf i).toOption.getD "") := by
  unfold textOf classText
  rw [hx]
  cases x.program.reactor? i.reactor <;> rfl

/-- A federate that owns the second of two wrappers, next to a delay. -/
def secondWrapper : Expansion where
  program :=
    { reactors :=
        [{ name := "Leaf" },
         { name := "Wrapper", instantiations := [{ name := "leaf", reactorClass := "Leaf" }] },
         { name := "_lf_GenDelay_0" },
         { name := "Main"
           instantiations :=
             [{ name := "a", reactorClass := "Wrapper" },
              { name := "b", reactorClass := "Wrapper" },
              { name := "d", reactorClass := "_lf_GenDelay_0" }] }] }
  tree :=
    .ofSites ⟨Text.lowercase "Main", 3, none⟩
      (.cons ⟨"a", 1, none⟩ (.cons ⟨"leaf", 0, none⟩ .nil .nil)
        (.cons ⟨"b", 1, none⟩ (.cons ⟨"leaf", 0, none⟩ .nil .nil)
          (.cons ⟨"d", 2, none⟩ .nil .nil)))
  federate := FederateLayout.toFederate { name := "b", instantiation := some "b" }
  emitter := outline
  options := {}

theorem elaborateFrom_secondWrapper :
    secondWrapper.program.elaborateFrom 3 = .ok secondWrapper.tree := by rfl

theorem expandSubtree_emission_secondWrapper :
    ∃ t source, secondWrapper.tree.subtree? 0 = some t ∧
      (secondWrapper.expandSubtree t).outcome ⟨["Leaf"]⟩ =
        (.ok source, ⟨["Leaf", "Main", "Wrapper"]⟩) := by
  have hroot : secondWrapper.tree.root ∈ secondWrapper.tree.instances := List.mem_cons_self
  have hnames : (secondWrapper.emission ⟨["Leaf"]⟩
      (secondWrapper.tree.walk secondWrapper.tree.root.id)).map secondWrapper.className =
        ["Main", "Wrapper"] := by decide
  obtain ⟨-, ⟨t, ht, hrun⟩, -⟩ := expandSubtree_emission elaborateFrom_secondWrapper hroot
    ⟨["Leaf"]⟩ fun j _ => textOf_of_outline rfl j
  rw [hnames] at hrun
  exact ⟨t, _, ht, hrun⟩

end Expansion

end ReactorSynth
