import ReactorSynth.Proofs.Embedding

/-!
# Further reactors

Reactors are looked up from the front, by name as by being the main one, so reactors behind those of
a program are found only where the program itself has none. A program that elaborates has all the
classes that are ever looked up, by its elaboration or by its generation, even in a generation that
fails.

* `extend_embeds`: a program lies inside the extended one, with its reactors where they were.
* **`elaborate_and_generate_extend`**: the extended program has the same instance trees, and from
  each of them the same classes and diagnostics.
-/

namespace ReactorSynth

namespace Program

variable {p q : Program} {top : Nat} {t : InstanceTree}

/-- The program with further reactors behind its own. -/
def extend (p : Program) (more : List Reactor) : Program := { reactors := p.reactors ++ more }

/-- What is found among the reactors of a program is found there in the extended one. -/
theorem findIdx?_extend {f : Reactor → Bool} {id : Nat} (more : List Reactor)
    (h : p.reactors.findIdx? f = some id) : (p.extend more).reactors.findIdx? f = some id := by
  rw [extend, List.findIdx?_append, h]
  rfl

theorem extend_embeds (p : Program) (more : List Reactor) : Embeds id p (p.extend more) where
  reactor h := (List.getElem?_append_left (List.getElem?_eq_some_iff.mp h).1).trans h
  reactorId h := findIdx?_extend more h

theorem elaborateFrom_extend (more : List Reactor) (h : p.elaborateFrom top = .ok t) :
    (p.extend more).elaborateFrom top = .ok t := by
  obtain ⟨r, -, hr, -⟩ := elaborateFrom_eq_ok_iff.mp h
  have hfollows := elaborateFrom_relocate (extend_embeds p more) hr
  rw [h] at hfollows
  exact hfollows.eq_ok.trans (congrArg Except.ok t.relocate_id)

/-- From a tree the two programs generate the same, for any federates and options. -/
def GeneratesLike (p q : Program) (t : InstanceTree) : Prop :=
  ∀ (federates : List Federate) (options : Options),
    generate q t federates PythonClass.emitter options =
      generate p t federates PythonClass.emitter options

theorem generatesLike_extend (more : List Reactor) (h : p.elaborateFrom top = .ok t) :
    p.GeneratesLike (p.extend more) t := by
  intro federates options
  have hsame : generate (p.extend more) (t.relocate id) (federates.map id) PythonClass.emitter
      options = generate p t (federates.map id) PythonClass.emitter options :=
    generate_relocate (extend_embeds p more) h
      (fun f _ => ⟨rfl, fun _ => by rw [t.relocate_id], fun _ _ => rfl⟩) options
  rwa [t.relocate_id, List.map_id] at hsame

/-- Further reactors change nothing about a program that elaborates, from the reactor at a position
or from its main reactor: neither its instance tree, nor what is generated from it, whichever names
the reactors have and whether or not they are main reactors. -/
theorem elaborate_and_generate_extend (p : Program) (more : List Reactor) :
    (∀ top t, p.elaborateFrom top = .ok t →
      (p.extend more).elaborateFrom top = .ok t ∧ p.GeneratesLike (p.extend more) t) ∧
    ∀ t, p.elaborate = .ok t →
      (p.extend more).elaborate = .ok t ∧ p.GeneratesLike (p.extend more) t := by
  have hfrom : ∀ top t, p.elaborateFrom top = .ok t →
      (p.extend more).elaborateFrom top = .ok t ∧ p.GeneratesLike (p.extend more) t :=
    fun _ _ h => ⟨elaborateFrom_extend more h, generatesLike_extend more h⟩
  refine ⟨hfrom, fun t h => ?_⟩
  obtain ⟨main, hmain, htree⟩ := exists_mainId?_of_elaborate h
  obtain ⟨hextended, hgenerates⟩ := hfrom main t htree
  refine ⟨?_, hgenerates⟩
  have hmain : (p.extend more).mainId? = some main := findIdx?_extend more hmain
  rw [elaborate, hmain]
  exact hextended

/-- A main reactor with a reaction to the reading of a sensor, and one to a variable that it does
not have. -/
def sensorReader : Program where
  reactors :=
    [{ name := "Sensor", ports := [{ name := "reading", direction := .output }] },
     { name := "Main"
       isMain := true
       isFederated := true
       reactions :=
         [{ triggers := [{ container := some "sensor", name := "reading" }] },
          { triggers := [{ name := "missing" }] }]
       instantiations := [{ name := "sensor", reactorClass := "Sensor" }] }]

/-- A sensor without a reading, another main reactor, and one that has the missing variable. -/
def shadowed : List Reactor :=
  [{ name := "Sensor" }, { name := "Other", isMain := true },
   { name := "Main", ports := [{ name := "missing", direction := .input }] }]

/-- A federate that leaves the second reaction to others, and one that runs it. -/
def sensorFederates : List Federate :=
  [FederateLayout.toFederate
    { name := "first", instantiation := some "sensor", excluded := [⟨1, 1⟩] },
   FederateLayout.toFederate { name := "second", instantiation := some "sensor" }]

theorem elaborate_and_generate_extend_shadowed :
    ∃ t, sensorReader.elaborate = .ok t ∧ (sensorReader.extend shadowed).elaborate = .ok t ∧
      (∃ leaf, sensorReader.elaborateFrom 0 = .ok leaf ∧
        (sensorReader.extend shadowed).elaborateFrom 0 = .ok leaf) ∧
      ∃ result, generate (sensorReader.extend shadowed) t sensorFederates PythonClass.emitter {} =
          result ∧
        result.federates.map (·.classNames) = [["Main", "Sensor"]] ∧
        result.diagnostics.length = 1 := by
  obtain ⟨hfrom, hmain⟩ := elaborate_and_generate_extend sensorReader shadowed
  have htree : sensorReader.elaborate =
      .ok (.ofSites ⟨Text.lowercase "Main", 1, none⟩ (.cons ⟨"sensor", 0, none⟩ .nil .nil)) := by
    rfl
  have hleaf : sensorReader.elaborateFrom 0 =
      .ok (.ofSites ⟨Text.lowercase "Sensor", 0, none⟩ .nil) := by rfl
  obtain ⟨hextended, hgenerates⟩ := hmain _ htree
  exact ⟨_, htree, hextended, ⟨_, hleaf, (hfrom 0 _ hleaf).1⟩, _, hgenerates sensorFederates {},
    by rfl, by rfl⟩

end Program

end ReactorSynth
