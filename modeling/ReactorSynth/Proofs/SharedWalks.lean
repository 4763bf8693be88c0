import Mathlib.Data.List.Nodup
import ReactorSynth.Proofs.ClassSearch
import ReactorSynth.Proofs.Interruption
import ReactorSynth.PythonClass

/-!
# Walks that share the classes written

Several instances may be expanded one after the other, each walk starting from the classes that the
walks before it have written. Together the walks write the emission of all instances they visit
(`flatten_shares`), each walk its share of it.

* `outcome_mapM_expandInstance`: what walks without failures return, and the classes written then.
* `mem_emission_iff`: with distinct names, the classes written are those of the instances visited
  that may write, wherever they are visited first.
* **`mapM_expandInstance_order_irrelevant`**: so walks from the same instances, in whatever order
  and number, write the same classes with the same texts, each of them once.
-/

namespace ReactorSynth

/-- Two walks, one after the other, end without a failure iff both of them do. -/
theorem WalkM.outcome_bind_eq_ok_iff {α β : Type} {m : WalkM α} {k : α → WalkM β}
    {s s' : EmittedClasses} {b : β} :
    outcome (m >>= k) s = (.ok b, s') ↔
      ∃ a s₁, outcome m s = (.ok a, s₁) ∧ outcome (k a) s₁ = (.ok b, s') := by
  rw [outcome_bind]
  cases outcome m s with
  | mk result s₁ => cases result <;> simp [and_assoc]

namespace Expansion

variable {x : Expansion}

/-- Expand the instance of a number and everything below it; a number without an instance adds
nothing. -/
def expandInstance (x : Expansion) (id : Nat) : WalkM String :=
  match x.tree.subtree? id with
  | none => return ""
  | some t => x.expandSubtree t

/-- The class of an instance as it is written: its name and its text. -/
def written (x : Expansion) (i : Instance) : String × String :=
  (x.className i, (x.textOf i).toOption.getD "")

/-- The texts of some written classes, one behind the other. -/
def joinTexts (classes : List (String × String)) : String := String.join (classes.map Prod.snd)

/-- The instances that write in each of some walks, when each walk starts from the classes written
before it. -/
def shares (x : Expansion) : EmittedClasses → List Nat → List (List Instance)
  | _, [] => []
  | s, id :: rest =>
    let share := x.emission s (x.tree.walk id)
    share :: x.shares ⟨s.names ++ share.map x.className⟩ rest

/-- The classes that each of some walks writes, the first walk from no classes written. -/
def writtenBy (x : Expansion) (ids : List Nat) : List (List (String × String)) :=
  (x.shares {} ids).map fun share => share.map x.written

/-! ## One walk -/

theorem outcome_expandInstance (x : Expansion) (id : Nat) (s : EmittedClasses) :
    (x.expandInstance id).outcome s = x.writeEach (x.emission s (x.tree.walk id)) s := by
  unfold expandInstance InstanceTree.walk
  cases x.tree.subtree? id with
  | none => rfl
  | some t => exact x.outcome_expandSubtree t s

/-- Writing some classes succeeds iff all of them have texts, and returns these. -/
theorem writeEach_eq_ok_iff {is : List Instance} {s s' : EmittedClasses} {source : String} :
    x.writeEach is s = (.ok source, s') ↔
      (∀ i ∈ is, x.textOf i = .ok (x.written i).2) ∧ source = joinTexts (is.map x.written) ∧
        s' = ⟨s.names ++ is.map x.className⟩ := by
  have hwrite : (∀ i ∈ is, x.textOf i = .ok (x.written i).2) → x.writeEach is s =
      (.ok (joinTexts (is.map x.written)), ⟨s.names ++ is.map x.className⟩) := by
    intro h
    rw [writeEach_of_ok h, joinTexts, List.map_map]
    rfl
  constructor
  · intro h
    have htext : ∀ i ∈ is, x.textOf i = .ok (x.written i).2 := by
      intro i hi
      cases hi' : x.textOf i with
      | ok text => rw [written, hi']; rfl
      | error e =>
        -- Then some class would be the first to fail.
        obtain ⟨before, j, e', hfails⟩ := exists_failsAt_iff.mpr ⟨i, hi, e, hi'⟩
        rw [writeEach_eq_error_iff.mpr ⟨before, j, hfails, rfl⟩] at h
        simp at h
    rw [hwrite htext, Prod.mk.injEq, Except.ok.injEq] at h
    exact ⟨htext, h.1.symm, h.2.symm⟩
  · rintro ⟨htext, rfl, rfl⟩
    exact hwrite htext

/-! ## Several walks -/

theorem emission_append (x : Expansion) (s : EmittedClasses) (is js : List Instance) :
    x.emission s (is ++ js) =
      x.emission s is ++ x.emission ⟨s.names ++ (x.emission s is).map x.className⟩ js := by
  rw [emission, List.filter_append, firstOfEach_append]
  rfl

/-- The walks together write the emission of all they visit. -/
theorem flatten_shares (x : Expansion) (s : EmittedClasses) (ids : List Nat) :
    (x.shares s ids).flatten = x.emission s (ids.flatMap x.tree.walk) := by
  induction ids generalizing s with
  | nil => rfl
  | cons id rest ih => rw [shares, List.flatten_cons, ih, List.flatMap_cons, emission_append]

/-- Walks end without a failure iff all classes they write have texts. Each then returns the texts
of its share. -/
theorem outcome_mapM_expandInstance {ids : List Nat} {s s' : EmittedClasses}
    {texts : List String} :
    WalkM.outcome (ids.mapM x.expandInstance) s = (.ok texts, s') ↔
      (∀ i ∈ x.emission s (ids.flatMap x.tree.walk), x.textOf i = .ok (x.written i).2) ∧
        texts = (x.shares s ids).map (fun share => joinTexts (share.map x.written)) ∧
        s' = ⟨s.names ++ (x.emission s (ids.flatMap x.tree.walk)).map x.className⟩ := by
  induction ids generalizing s s' texts with
  | nil =>
    have hnil : x.emission s [] = [] := rfl
    simp [hnil, shares, eq_comm (a := s)]
  | cons id rest ih =>
    simp only [List.mapM_cons, WalkM.outcome_bind_eq_ok_iff, outcome_expandInstance,
      writeEach_eq_ok_iff, ih, WalkM.outcome_pure, Prod.mk.injEq, Except.ok.injEq,
      List.flatMap_cons, emission_append, List.forall_mem_append, shares, List.map_cons,
      List.map_append, ← List.append_assoc]
    constructor
    · rintro ⟨_, _, ⟨hfirst, rfl, rfl⟩, _, _, ⟨hrest, rfl, rfl⟩, rfl, rfl⟩
      exact ⟨⟨hfirst, hrest⟩, rfl, rfl⟩
    · rintro ⟨⟨hfirst, hrest⟩, rfl, rfl⟩
      exact ⟨_, _, ⟨hfirst, rfl, rfl⟩, _, _, ⟨hrest, rfl, rfl⟩, rfl, rfl⟩

/-! ## Classes that instances share -/

/-- With distinct names, an instance that may write has the class that is written for its name,
though it may be another instance that writes it. -/
theorem exists_mem_emission (hnames : (x.program.reactors.map (·.name)).Nodup)
    {is : List Instance} {i : Instance} (hi : i ∈ is) (hmay : x.mayWrite i = true) :
    ∃ j ∈ x.emission {} is, x.className j = x.className i ∧ x.textOf j = x.textOf i := by
  have hlt : ∀ {k : Instance}, x.mayWrite k = true → k.reactor < x.program.reactors.length := by
    intro k hk
    unfold mayWrite at hk
    cases hr : x.program.reactor? k.reactor with
    | none => simp [hr] at hk
    | some r => exact (List.getElem?_eq_some_iff.mp hr).1
  have hname : x.className i ∈ [] ++ (x.emission {} is).map x.className :=
    mem_append_firstOfEach.mpr
      (Or.inr (List.mem_map_of_mem (List.mem_filter.mpr ⟨hi, hmay⟩)))
  rw [List.nil_append] at hname
  obtain ⟨j, hj, hname⟩ := List.mem_map.mp hname
  have hjmay := (List.mem_filter.mp ((firstOfEach_sublist _ _ _).subset hj)).2
  have hreactor : j.reactor = i.reactor :=
    Program.className_injective hnames (hlt hjmay) (hlt hmay) hname
  refine ⟨j, hj, hname, ?_⟩
  unfold textOf
  rw [hreactor]

/-- With distinct names, the classes that some instances write from none are those of all of them
that may write. -/
theorem mem_written_emission_iff (hnames : (x.program.reactors.map (·.name)).Nodup)
    {is : List Instance} (htext : ∀ i ∈ x.emission {} is, x.textOf i = .ok (x.written i).2)
    {name text : String} :
    (name, text) ∈ (x.emission {} is).map x.written ↔
      ∃ i ∈ is, x.mayWrite i = true ∧ x.className i = name ∧ x.textOf i = .ok text := by
  rw [List.mem_map]
  constructor
  · rintro ⟨i, hi, heq⟩
    obtain ⟨hmem, hmay⟩ := List.mem_filter.mp ((firstOfEach_sublist _ _ _).subset hi)
    refine ⟨i, hmem, hmay, congrArg Prod.fst heq, ?_⟩
    rw [htext i hi, heq]
  · rintro ⟨i, hi, hmay, rfl, hitext⟩
    obtain ⟨j, hj, hname, hjtext⟩ := exists_mem_emission hnames hi hmay
    refine ⟨j, hj, ?_⟩
    rw [written, hname, hjtext, hitext]
    rfl

/-- The classes written over all walks are those of the emission of all instances visited. -/
theorem flatten_writtenBy (x : Expansion) (ids : List Nat) :
    (x.writtenBy ids).flatten = (x.emission {} (ids.flatMap x.tree.walk)).map x.written := by
  rw [writtenBy, ← flatten_shares, List.map_flatten]

theorem names_writtenBy (x : Expansion) (ids : List Nat) :
    (x.writtenBy ids).flatten.map Prod.fst =
      (x.emission {} (ids.flatMap x.tree.walk)).map x.className := by
  rw [flatten_writtenBy, List.map_map]
  rfl

theorem nodup_names_writtenBy (x : Expansion) (ids : List Nat) :
    ((x.writtenBy ids).flatten.map Prod.fst).Nodup := by
  rw [names_writtenBy]
  exact (nodup_firstOfEach _ _ _).1

/-- Walks from no classes written, without a failure. -/
theorem outcome_mapM_eq_ok_iff {ids : List Nat} {texts : List String} {s : EmittedClasses} :
    WalkM.outcome (ids.mapM x.expandInstance) {} = (.ok texts, s) ↔
      (∀ i ∈ x.emission {} (ids.flatMap x.tree.walk), x.textOf i = .ok (x.written i).2) ∧
        texts = (x.writtenBy ids).map joinTexts ∧
        s = ⟨(x.writtenBy ids).flatten.map Prod.fst⟩ := by
  rw [outcome_mapM_expandInstance, names_writtenBy, writtenBy, List.map_map]
  rfl

/-- With distinct names, walks from instances among which others have been expanded without a
failure do not fail either. -/
theorem textOf_of_subset (hnames : (x.program.reactors.map (·.name)).Nodup) {is js : List Instance}
    (htext : ∀ i ∈ x.emission {} is, x.textOf i = .ok (x.written i).2) (h : js ⊆ is) :
    ∀ j ∈ x.emission {} js, x.textOf j = .ok (x.written j).2 := by
  intro j hj
  obtain ⟨hmem, hmay⟩ := List.mem_filter.mp ((firstOfEach_sublist _ _ _).subset hj)
  obtain ⟨i, hi, -, heq⟩ := exists_mem_emission hnames (h hmem) hmay
  rw [written, ← heq, htext i hi]
  rfl

/-- In a program whose classes have distinct names, expand some instances one after the other, from
no classes written, without a failure. Then each walk returns the texts of some classes, and over
all walks these are the classes of the instances visited that may write, each of them once, and the
classes recorded. Walks from the same instances in another order or number do not fail either and
write the same classes with the same texts. -/
theorem mapM_expandInstance_order_irrelevant (hnames : (x.program.reactors.map (·.name)).Nodup)
    {ids : List Nat} {texts : List String} {s : EmittedClasses}
    (hrun : WalkM.outcome (ids.mapM x.expandInstance) {} = (.ok texts, s)) :
    texts = (x.writtenBy ids).map joinTexts ∧
      s.names = (x.writtenBy ids).flatten.map Prod.fst ∧ s.names.Nodup ∧
      (∀ name text, (name, text) ∈ (x.writtenBy ids).flatten ↔ ∃ id ∈ ids,
        ∃ i ∈ x.tree.walk id,
          x.mayWrite i = true ∧ x.className i = name ∧ x.textOf i = .ok text) ∧
      ∀ ids' : List Nat, (∀ id, id ∈ ids' ↔ id ∈ ids) → ∃ s' : EmittedClasses,
        WalkM.outcome (ids'.mapM x.expandInstance) {} =
            (.ok ((x.writtenBy ids').map joinTexts), s') ∧
          s'.names.Perm s.names ∧
          (x.writtenBy ids').flatten.Perm (x.writtenBy ids).flatten := by
  obtain ⟨htext, rfl, rfl⟩ := outcome_mapM_eq_ok_iff.mp hrun
  have hmem : ∀ name text, (name, text) ∈ (x.writtenBy ids).flatten ↔ ∃ id ∈ ids,
      ∃ i ∈ x.tree.walk id,
        x.mayWrite i = true ∧ x.className i = name ∧ x.textOf i = .ok text := by
    intro name text
    rw [flatten_writtenBy, mem_written_emission_iff hnames htext]
    simp only [List.mem_flatMap]
    constructor
    · rintro ⟨i, ⟨id, hid, hi⟩, h⟩
      exact ⟨id, hid, i, hi, h⟩
    · rintro ⟨id, hid, i, hi, h⟩
      exact ⟨i, ⟨id, hid, hi⟩, h⟩
  refine ⟨rfl, rfl, nodup_names_writtenBy x ids, hmem, ?_⟩
  intro ids' hids
  have hvisited : ∀ i, i ∈ ids'.flatMap x.tree.walk ↔ i ∈ ids.flatMap x.tree.walk := by
    intro i
    simp only [List.mem_flatMap, hids]
  have htext' := textOf_of_subset hnames htext fun i hi => (hvisited i).mp hi
  have hperm : (x.writtenBy ids').flatten.Perm (x.writtenBy ids).flatten := by
    rw [List.perm_ext_iff_of_nodup (List.Nodup.of_map _ (nodup_names_writtenBy x ids'))
      (List.Nodup.of_map _ (nodup_names_writtenBy x ids))]
    rintro ⟨name, text⟩
    rw [flatten_writtenBy, flatten_writtenBy, mem_written_emission_iff hnames htext',
      mem_written_emission_iff hnames htext]
    simp only [hvisited]
  exact ⟨_, outcome_mapM_eq_ok_iff.mpr ⟨htext', rfl, rfl⟩, hperm.map Prod.fst, hperm⟩

/-- A federate that runs a sensor hub and a sensor of the same class as those of the hub; the hub
has a delay between its sensors, with a sensor of its own. -/
def sensorHub : Expansion where
  program :=
    { reactors :=
        [{ name := "Sensor", reactions := [{ code := "read()", label := some "sample" }] },
         { name := "_lf_GenDelay_0"
           instantiations := [{ name := "inner", reactorClass := "Probe" }] },
         { name := "Probe" },
         { name := "Hub"
           instantiations :=
             [{ name := "left", reactorClass := "Sensor" },
              { name := "delay", reactorClass := "_lf_GenDelay_0" }] },
         { name := "Main"
           instantiations :=
             [{ name := "hub", reactorClass := "Hub" },
              { name := "spare", reactorClass := "Sensor" }] }] }
  tree :=
    .ofSites ⟨Text.lowercase "Main", 4, none⟩
      (.cons ⟨"hub", 3, none⟩
        (.cons ⟨"left", 0, none⟩ .nil
          (.cons ⟨"delay", 1, none⟩ (.cons ⟨"inner", 2, none⟩ .nil .nil) .nil))
        (.cons ⟨"spare", 0, none⟩ .nil .nil))
  federate := FederateLayout.unfederated.toFederate
  emitter := PythonClass.emitter
  options := {}

/-- The sensors first, then the hub twice; or the other way round. -/
theorem mapM_expandInstance_order_irrelevant_sensorHub :
    sensorHub.program.elaborateFrom 4 = .ok sensorHub.tree ∧
      (sensorHub.program.reactors.map (·.name)).Nodup ∧
      ∃ texts s s', WalkM.outcome ([5, 2, 1, 1].mapM sensorHub.expandInstance) {} = (.ok texts, s) ∧
        s.names = ["Sensor", "Hub", "Probe"] ∧
        WalkM.outcome ([1, 2, 5].mapM sensorHub.expandInstance) {} =
          (.ok ((sensorHub.writtenBy [1, 2, 5]).map joinTexts), s') ∧
        s'.names.Perm ["Sensor", "Hub", "Probe"] := by
  have hnames : (sensorHub.program.reactors.map (·.name)).Nodup := by decide
  obtain ⟨texts, s, hrun, hs⟩ : ∃ texts s,
      WalkM.outcome ([5, 2, 1, 1].mapM sensorHub.expandInstance) {} = (.ok texts, s) ∧
        s.names = ["Sensor", "Hub", "Probe"] := ⟨_, _, rfl, rfl⟩
  have hids : ∀ id, id ∈ [1, 2, 5] ↔ id ∈ [5, 2, 1, 1] := by simp; omega
  obtain ⟨-, -, -, -, hother⟩ := mapM_expandInstance_order_irrelevant hnames hrun
  obtain ⟨s', hrun', hperm, -⟩ := hother [1, 2, 5] hids
  exact ⟨by rfl, hnames, texts, s, s', hrun, hs, hrun', hs ▸ hperm⟩

end Expansion

end ReactorSynth
