import ReactorSynth.Proofs.FirstFailure
import ReactorSynth.Proofs.Walk

/-!
# Walks that end early

A walk writes the classes of its emission one after the other, so when a class fails the classes
before it in the emission have been written and recorded, and no other.

* `writeEach_eq_error_iff`: the error is that of the first class that fails, and the names recorded
  are those of the classes before it.
* `emission_resume`: from the names recorded then, the emission starts with the class that failed.
* **`expandSubtree_interrupted`**: so a walk that failed fails again in the same way and records
  nothing more, and the class that failed is never passed over.
-/

namespace ReactorSynth.Expansion

variable {x : Expansion}

theorem writeEach_eq_error_iff {is : List Instance} {s s' : EmittedClasses} {e : GenError} :
    x.writeEach is s = (.error e, s') ↔
      ∃ before i, FailsAt x.textOf is before i e ∧ s' = ⟨s.names ++ before.map x.className⟩ := by
  induction is generalizing s with
  | nil => simp [writeEach, not_failsAt_nil]
  | cons i rest ih =>
    rw [writeEach]
    cases htext : x.textOf i with
    | error e' =>
      simp only [failsAt_cons_of_error htext, Prod.mk.injEq, Except.error.injEq]
      constructor
      · rintro ⟨rfl, rfl⟩
        exact ⟨[], i, ⟨rfl, rfl, rfl⟩, by simp⟩
      · rintro ⟨_, _, ⟨rfl, rfl, rfl⟩, rfl⟩
        simp
    | ok text =>
      -- The walk goes on after `i` and fails there, or not at all.
      have hmap : ∀ run : Except GenError String × EmittedClasses,
          (run.1.map (text ++ ·), run.2) = (.error e, s') ↔ run = (.error e, s') := by
        rintro ⟨result, s''⟩
        cases result <;> simp [Except.map]
      simp only [failsAt_cons_of_ok htext, hmap, ih]
      constructor
      · rintro ⟨before, j, hj, rfl⟩
        exact ⟨i :: before, j, ⟨before, rfl, hj⟩, by simp⟩
      · rintro ⟨_, j, ⟨before, rfl, hj⟩, rfl⟩
        exact ⟨before, j, hj, by simp⟩

/-- The classes of a tree fail with the first class that fails. -/
theorem expandClasses_eq_error_iff {e : GenError} :
    x.expandClasses = .error e ↔
      ∃ before i, FailsAt x.textOf (x.emission {} x.tree.instances) before i e := by
  have hfails : (∃ s', x.writeEach (x.emission {} x.tree.instances) {} = (.error e, s')) ↔
      ∃ before i, FailsAt x.textOf (x.emission {} x.tree.instances) before i e := by
    simp only [writeEach_eq_error_iff]
    constructor
    · rintro ⟨s', before, i, h, -⟩
      exact ⟨before, i, h⟩
    · rintro ⟨before, i, h⟩
      exact ⟨_, before, i, h, rfl⟩
  rw [← hfails, expandClasses_eq]
  cases x.writeEach (x.emission {} x.tree.instances) {} with
  | mk result s => cases result <;> simp [Except.map]

/-- From the names of its first classes on, an emission consists of the other classes. -/
theorem emission_resume {s : EmittedClasses} {is before after : List Instance}
    (h : x.emission s is = before ++ after) :
    x.emission ⟨s.names ++ before.map x.className⟩ is = after :=
  firstOfEach_resume h

/-- The names of an emission are distinct, and not among those written before. -/
theorem className_not_mem_of_emission {s : EmittedClasses} {is before after : List Instance}
    {i : Instance} (h : x.emission s is = before ++ i :: after) :
    x.className i ∉ s.names ++ before.map x.className := by
  obtain ⟨hnodup, hnew⟩ := nodup_firstOfEach x.className s.names (is.filter x.mayWrite)
  rw [show firstOfEach x.className s.names (is.filter x.mayWrite) = before ++ i :: after from h]
    at hnodup hnew
  rw [List.mem_append]
  rintro (hmem | hmem)
  · exact hnew i (by simp) hmem
  · rw [List.map_append, List.map_cons, List.nodup_append] at hnodup
    exact hnodup.2.2 _ hmem _ List.mem_cons_self rfl

/-- When expanding an instance fails, the error is that of the first class in the emission of its
subtree that fails; the names of the classes before it have been recorded, and that of the class
itself has not. Expanding the instance again from there fails in the same way and records nothing
more. -/
theorem expandSubtree_interrupted {top : Nat} (h : x.program.elaborateFrom top = .ok x.tree)
    {i : Instance} (hi : i ∈ x.tree.instances) :
    ∃ t, x.tree.subtree? i.id = some t ∧
      ∀ s s' e, (x.expandSubtree t).outcome s = (.error e, s') →
        (∃ before j after, x.emission s (x.tree.walk i.id) = before ++ j :: after ∧
          (∀ k ∈ before, ∃ text, x.textOf k = .ok text) ∧ x.textOf j = .error e ∧
          s'.names = s.names ++ before.map x.className ∧ x.className j ∉ s'.names) ∧
        (x.expandSubtree t).outcome s' = (.error e, s') := by
  obtain ⟨t, ht, -, -⟩ := (Program.numbered_of_elaborateFrom h).exists_subtree? hi
  have hwalk : x.tree.walk i.id = t.instances := by rw [InstanceTree.walk, ht]
  refine ⟨t, ht, ?_⟩
  intro s s' e hrun
  rw [outcome_expandSubtree, writeEach_eq_error_iff] at hrun
  obtain ⟨before, j, ⟨⟨after, hem⟩, hok, herror⟩, rfl⟩ := hrun
  have hnew := className_not_mem_of_emission hem
  rw [hwalk]
  refine ⟨⟨before, j, after, hem, hok, herror, rfl, hnew⟩, ?_⟩
  -- The second run meets the failing class at once.
  have hagain : FailsAt x.textOf (j :: after) [] j e := ⟨⟨after, rfl⟩, by simp, herror⟩
  rw [outcome_expandSubtree, emission_resume hem, writeEach_eq_error_iff]
  exact ⟨[], j, hagain, by simp⟩

/-- An emitter that writes one line for each class and refuses reactors with timers. -/
def timerless : ClassEmitter :=
  { outline with
    constructor := fun ctx =>
      match ctx.reactor.timers with
      | [] => pure ()
      | timer :: _ => throw (.notAPort timer.name "a timer") }

/-- A clock between two instances of other classes; one of these comes with an instance of a class
that is written before the walk starts. -/
def stoppedClock : Expansion where
  program :=
    { reactors :=
        [{ name := "Leaf" },
         { name := "Wrapper", instantiations := [{ name := "leaf", reactorClass := "Leaf" }] },
         { name := "Clock", timers := [{ name := "tick" }] },
         { name := "Spare" },
         { name := "Main"
           instantiations :=
             [{ name := "a", reactorClass := "Wrapper" },
              { name := "b", reactorClass := "Clock" },
              { name := "c", reactorClass := "Spare" }] }] }
  tree :=
    .ofSites ⟨Text.lowercase "Main", 4, none⟩
      (.cons ⟨"a", 1, none⟩ (.cons ⟨"leaf", 0, none⟩ .nil .nil)
        (.cons ⟨"b", 2, none⟩ .nil (.cons ⟨"c", 3, none⟩ .nil .nil)))
  federate := FederateLayout.unfederated.toFederate
  emitter := timerless
  options := {}

theorem expandSubtree_interrupted_stoppedClock :
    ∃ t, stoppedClock.tree.subtree? 0 = some t ∧
      (stoppedClock.expandSubtree t).outcome ⟨["Leaf"]⟩ =
        (.error (.notAPort "tick" "a timer"), ⟨["Leaf", "Main", "Wrapper"]⟩) ∧
      (stoppedClock.expandSubtree t).outcome ⟨["Leaf", "Main", "Wrapper"]⟩ =
        (.error (.notAPort "tick" "a timer"), ⟨["Leaf", "Main", "Wrapper"]⟩) := by
  have htree : stoppedClock.program.elaborateFrom 4 = .ok stoppedClock.tree := by rfl
  have hroot : stoppedClock.tree.root ∈ stoppedClock.tree.instances := List.mem_cons_self
  obtain ⟨t, ht, hfails⟩ := expandSubtree_interrupted htree hroot
  obtain rfl : stoppedClock.tree = t := Option.some.inj ht
  have hrun : (stoppedClock.expandSubtree stoppedClock.tree).outcome ⟨["Leaf"]⟩ =
      (.error (.notAPort "tick" "a timer"), ⟨["Leaf", "Main", "Wrapper"]⟩) := by rfl
  exact ⟨_, ht, hrun, (hfails _ _ _ hrun).2⟩

end ReactorSynth.Expansion
