import ReactorSynth.Proofs.ClassSearch
import ReactorSynth.Proofs.ClassText
import ReactorSynth.Proofs.Interruption

/-!
# Broken reactions

A reaction is broken when one of its references stands for nothing or one of its effects for a
timer (`Reaction.IsBroken`); a broken reaction has no method in a Python class.

* `resolve_eq_error_iff`: a reference fails in one of three ways (`Unresolved`).
* `exists_reactionCode_error_iff`: the reactions without a method are the broken ones.
* `resolve_ne_unknownReactor`: in a reactor with instances every container has a class, since
  elaboration has looked it up.
* **`expandClasses_fails_iff`**: an expansion to Python classes fails iff a broken reaction is kept
  in the class of some instance that may write its class.
-/

namespace ReactorSynth

/-! ## References -/

/-- A reference stands for nothing: its container does not exist, or the class of the container,
or the variable in the reactor that it is looked up in. -/
inductive Unresolved (p : Program) (r : Reactor) (ref : VarRef) : GenError → Prop
  | noContainer {name : String} (hc : ref.container = some name)
      (h : r.instantiationNamed? name = none) : Unresolved p r ref (.unknownContainer name r.name)
  | noClass {name : String} {i : Instantiation} (hc : ref.container = some name)
      (hi : r.instantiationNamed? name = some i) (h : p.reactorNamed? i.reactorClass = none) :
      Unresolved p r ref (.unknownReactor i.reactorClass)
  | noVariable {container : Option Instantiation} {inner : Reactor}
      (hs : ref.scope p r = .ok (container, inner)) (h : inner.variableNamed? ref.name = none) :
      Unresolved p r ref (.unresolvedVariable ref.name inner.name)

variable {p : Program} {r : Reactor} {ref : VarRef} {e : GenError}

theorem resolve_of_scope {container : Option Instantiation} {inner : Reactor}
    (hs : ref.scope p r = .ok (container, inner)) : ref.resolve p r =
      match inner.variableNamed? ref.name with
      | none => .error (.unresolvedVariable ref.name inner.name)
      | some target => .ok ⟨container, target⟩ := by
  unfold VarRef.resolve
  cases hv : inner.variableNamed? ref.name <;> simp [hs, hv]

theorem resolve_eq_error_iff : ref.resolve p r = .error e ↔ Unresolved p r ref e := by
  constructor
  · intro h
    cases hs : ref.scope p r with
    | ok found =>
      obtain ⟨container, inner⟩ := found
      rw [resolve_of_scope hs] at h
      cases hv : inner.variableNamed? ref.name with
      | none =>
        rw [hv] at h
        obtain rfl := Except.error.inj h
        exact .noVariable hs hv
      | some target => simp [hv] at h
    | error e' =>
      obtain rfl : e' = e := by simpa [VarRef.resolve, hs] using h
      unfold VarRef.scope at hs
      cases hc : ref.container with
      | none => simp [hc] at hs
      | some name =>
        cases hi : r.instantiationNamed? name with
        | none =>
          obtain rfl := by simpa [hc, hi] using hs
          exact .noContainer hc hi
        | some i =>
          cases hp : p.reactorNamed? i.reactorClass with
          | none =>
            obtain rfl := by simpa [hc, hi, hp] using hs
            exact .noClass hc hi hp
          | some inner => simp [hc, hi, hp] at hs
  · rintro (⟨hc, h⟩ | ⟨hc, hi, h⟩ | ⟨hs, h⟩)
    · simp [VarRef.resolve, VarRef.scope, hc, h]
    · simp [VarRef.resolve, VarRef.scope, hc, hi, h]
    · rw [resolve_of_scope hs, h]

/-- Only timers have no text as an effect. -/
theorem effectText_eq_error_iff {v : ResolvedRef} :
    v.effectText = .error e ↔ v.target.isTimer = true ∧ .notAPort v.text "a timer" = e := by
  unfold ResolvedRef.effectText ResolvedRef.portText
  cases v.target <;> simp [Variable.isTimer, Variable.kind]

/-! ## Reactions -/

namespace Reaction

/-- The references of a reaction, in the order in which they are resolved. -/
def references (reaction : Reaction) : List VarRef :=
  reaction.triggers ++ reaction.sources ++ reaction.effects

/-- A reference of the reaction stands for nothing, or an effect for a timer. -/
def IsBroken (reaction : Reaction) (p : Program) (r : Reactor) : Prop :=
  (∃ ref ∈ reaction.references, ∃ e, ref.resolve p r = .error e) ∨
    ∃ ref ∈ reaction.effects, ∃ v, ref.resolve p r = .ok v ∧ v.target.isTimer = true

end Reaction

namespace PythonClass

variable {ctx : ClassContext} {reaction : Reaction}

theorem resolveReaction_eq_error_iff :
    resolveReaction ctx reaction = .error e ↔
      ∃ before ref, FailsAt (·.resolve ctx.program ctx.reactor) reaction.references before ref e := by
  rw [← mapM_eq_error_iff, Reaction.references, List.mapM_append, List.mapM_append,
    resolveReaction]
  cases reaction.triggers.mapM (·.resolve ctx.program ctx.reactor) with
  | error e' => simp [bind, Except.bind]
  | ok triggers =>
    cases reaction.sources.mapM (·.resolve ctx.program ctx.reactor) with
    | error e' => simp [bind, Except.bind]
    | ok sources =>
      cases reaction.effects.mapM (·.resolve ctx.program ctx.reactor) <;>
        simp [bind, Except.bind, pure, Except.pure]

/-- A resolved reaction holds what its references stand for, in their order. -/
theorem map_resolve_of_resolveReaction {resolved : ResolvedReaction}
    (h : resolveReaction ctx reaction = .ok resolved) :
    reaction.references.map (·.resolve ctx.program ctx.reactor) =
        (resolved.triggers ++ resolved.sources ++ resolved.effects).map .ok ∧
      reaction.effects.map (·.resolve ctx.program ctx.reactor) = resolved.effects.map .ok := by
  simp only [resolveReaction, bind_eq_ok_iff, mapM_eq_ok_iff] at h
  obtain ⟨triggers, htriggers, sources, hsources, effects, heffects, hresolved⟩ := h
  obtain rfl := Except.ok.inj hresolved
  refine ⟨?_, heffects⟩
  rw [Reaction.references, List.map_append, List.map_append, htriggers, hsources, heffects,
    List.map_append, List.map_append]

/-- The effects of a resolved reaction are what its effects stand for. -/
theorem mem_effects_iff {resolved : ResolvedReaction}
    (h : resolveReaction ctx reaction = .ok resolved) {v : ResolvedRef} :
    v ∈ resolved.effects ↔
      ∃ ref ∈ reaction.effects, ref.resolve ctx.program ctx.reactor = .ok v := by
  have hmem : (.ok v : Except GenError ResolvedRef) ∈ resolved.effects.map .ok ↔
      v ∈ resolved.effects := by simp
  rw [← hmem, ← (map_resolve_of_resolveReaction h).2, List.mem_map]

/-- A reaction fails at the first of its references that stands for nothing or, when there is no
such reference, at its first effect without a text. -/
theorem reactionCode_eq_error_iff {index : Nat} :
    reactionCode ctx index reaction = .error e ↔
      (∃ before ref,
        FailsAt (·.resolve ctx.program ctx.reactor) reaction.references before ref e) ∨
      ∃ resolved, resolveReaction ctx reaction = .ok resolved ∧
        ∃ before v, FailsAt (·.effectText) resolved.effects before v e := by
  simp only [reactionCode, bind_eq_error_iff, resolveReaction_eq_error_iff, mapM_eq_error_iff]
  simp [pure, Except.pure]

/-- The reactions without a method are the broken ones. -/
theorem exists_reactionCode_error_iff (ctx : ClassContext) (index : Nat) (reaction : Reaction) :
    (∃ e, reactionCode ctx index reaction = .error e) ↔
      reaction.IsBroken ctx.program ctx.reactor := by
  simp only [reactionCode_eq_error_iff]
  constructor
  · rintro ⟨e, ⟨before, ref, h⟩ | ⟨resolved, hres, before, v, h⟩⟩
    · exact Or.inl ⟨ref, h.mem, e, h.2.2⟩
    · obtain ⟨ref, href, hv⟩ := (mem_effects_iff hres).mp h.mem
      exact Or.inr ⟨ref, href, v, hv, (effectText_eq_error_iff.mp h.2.2).1⟩
  · intro h
    by_cases href : ∃ ref ∈ reaction.references, ∃ e, ref.resolve ctx.program ctx.reactor = .error e
    · obtain ⟨before, ref, e, hfails⟩ := exists_failsAt_iff.mpr href
      exact ⟨e, Or.inl ⟨before, ref, hfails⟩⟩
    · -- All references stand for something, so some effect stands for a timer.
      obtain ⟨ref, href', v, hv, htimer⟩ := h.resolve_left href
      cases hres : resolveReaction ctx reaction with
      | error e =>
        obtain ⟨before, ref, hfails⟩ := resolveReaction_eq_error_iff.mp hres
        exact absurd ⟨ref, hfails.mem, e, hfails.2.2⟩ href
      | ok resolved =>
        have hmem : v ∈ resolved.effects := (mem_effects_iff hres).mpr ⟨ref, href', hv⟩
        have herror : v.effectText = .error (.notAPort v.text "a timer") :=
          effectText_eq_error_iff.mpr ⟨htimer, rfl⟩
        obtain ⟨before, v', e, hfails⟩ := exists_failsAt_iff.mpr ⟨v, hmem, _, herror⟩
        exact ⟨e, Or.inr ⟨resolved, rfl, before, v', hfails⟩⟩

/-- The cause of a failing reaction is a reference that stands for nothing, or a timer. -/
theorem cause_of_reactionCode {index : Nat} (h : reactionCode ctx index reaction = .error e) :
    (∃ ref, Unresolved ctx.program ctx.reactor ref e) ∨ ∃ text, .notAPort text "a timer" = e := by
  rcases reactionCode_eq_error_iff.mp h with ⟨before, ref, hfails⟩ | ⟨resolved, -, before, v, hfails⟩
  · exact Or.inl ⟨ref, resolve_eq_error_iff.mp hfails.2.2⟩
  · exact Or.inr ⟨v.text, (effectText_eq_error_iff.mp hfails.2.2).2⟩

end PythonClass

/-! ## Containers of elaborated reactors -/

/-- In a reactor with instances no reference fails for want of a class. -/
theorem resolve_ne_unknownReactor {top : Nat} {t : InstanceTree}
    (h : p.elaborateFrom top = .ok t) {i : Instance} (hi : i ∈ t.instances)
    (hr : p.reactor? i.reactor = some r) (ref : VarRef) (name : String) :
    ref.resolve p r ≠ .error (.unknownReactor name) := by
  rw [Ne, resolve_eq_error_iff]
  rintro ⟨⟩
  rename_i container d hc hd hnone
  -- Elaboration has found the class of every instantiation.
  have hmem : d ∈ r.instantiations := List.mem_of_find?_eq_some hd
  obtain ⟨⟨id, hid⟩, -⟩ := (Program.elaborateFrom_isUnfolding h).resolved i hi r hr d hmem
  obtain ⟨inner, hinner, hname⟩ := Program.exists_reactor_of_reactorId hid
  have hfound := List.find?_eq_none.mp hnone inner (List.mem_of_getElem? hinner)
  simp [hname] at hfound

/-! ## Expansions -/

namespace Expansion

variable {x : Expansion}

/-- The class of a reactor has a broken reaction in the federate: one of a reactor that is not
federated, or one that the federate runs and that is no network reaction. -/
def KeepsBroken (x : Expansion) (id : Nat) (r : Reactor) : Prop :=
  ∃ k reaction, r.reactions[k]? = some reaction ∧
    (r.isFederated = true →
      x.federate.runs ⟨id, k⟩ = true ∧ x.federate.isNetwork ⟨id, k⟩ = false) ∧
    reaction.IsBroken x.program r

theorem mem_keptReactions {id k : Nat} {reaction : Reaction} :
    (k, reaction) ∈ x.keptReactions id r ↔ r.reactions[k]? = some reaction ∧
      (r.isFederated = true →
        x.federate.runs ⟨id, k⟩ = true ∧ x.federate.isNetwork ⟨id, k⟩ = false) := by
  have hindexed : (k, reaction) ∈ r.indexedReactions ↔ r.reactions[k]? = some reaction := by
    simp only [Reactor.indexedReactions, List.mem_map, Prod.exists, Prod.mk.injEq,
      List.mk_mem_zipIdx_iff_getElem?]
    constructor
    · rintro ⟨_, _, h, rfl, rfl⟩
      exact h
    · intro h
      exact ⟨reaction, k, h, rfl, rfl⟩
  simp only [keptReactions, List.mem_filter, hindexed, Federate.keeps]
  cases r.isFederated <;> simp

/-- The class of an instance fails at the first kept reaction without a method. -/
theorem textOf_eq_error_iff (hx : x.emitter = PythonClass.emitter) {i : Instance}
    (hr : x.program.reactor? i.reactor = some r) :
    x.textOf i = .error e ↔ ∃ before m,
      FailsAt (PythonClass.methodCode ⟨x.program, i.reactor, r, x.options⟩)
        (x.keptReactions i.reactor r) before m e := by
  unfold textOf classText
  rw [hr, hx]
  exact PythonClass.classText_eq_error_iff

/-- The class of an instance fails iff it keeps a broken reaction. -/
theorem exists_textOf_error_iff (hx : x.emitter = PythonClass.emitter) {i : Instance}
    (hr : x.program.reactor? i.reactor = some r) :
    (∃ e, x.textOf i = .error e) ↔ x.KeepsBroken i.reactor r := by
  have hbroken := PythonClass.exists_reactionCode_error_iff ⟨x.program, i.reactor, r, x.options⟩
  simp only [textOf_eq_error_iff hx hr]
  constructor
  · rintro ⟨e, before, ⟨k, reaction⟩, h⟩
    obtain ⟨hk, hkept⟩ := mem_keptReactions.mp h.mem
    exact ⟨k, reaction, hk, hkept, (hbroken k reaction).mp ⟨e, h.2.2⟩⟩
  · rintro ⟨k, reaction, hk, hkept, hb⟩
    obtain ⟨e, he⟩ := (hbroken k reaction).mpr hb
    obtain ⟨before, m, e', hfails⟩ := exists_failsAt_iff.mpr
      ⟨(k, reaction), mem_keptReactions.mpr ⟨hk, hkept⟩, e,
        show PythonClass.methodCode _ (k, reaction) = .error e from he⟩
    exact ⟨e', before, m, hfails⟩

theorem mayWrite_iff {i : Instance} (hr : x.program.reactor? i.reactor = some r) :
    x.mayWrite i = true ↔
      (i.id = x.tree.root.id ∨ x.federate.owns x.tree i.id = true) ∧
        x.options.isDelayClass r.name = false := by
  unfold mayWrite
  simp [hr, isEligible]

/-- When classes have distinct names, a class that fails at some instance fails at the first
instance of its name. -/
theorem exists_emission_error_iff {top : Nat}
    (hnames : (x.program.reactors.map (·.name)).Nodup)
    (htree : x.program.elaborateFrom top = .ok x.tree) :
    (∃ i ∈ x.emission {} x.tree.instances, ∃ e, x.textOf i = .error e) ↔
      ∃ i ∈ x.tree.instances, x.mayWrite i = true ∧ ∃ e, x.textOf i = .error e := by
  have hsub : (x.emission {} x.tree.instances).Sublist (x.tree.instances.filter x.mayWrite) :=
    firstOfEach_sublist _ _ _
  have hlt : ∀ {i : Instance}, i ∈ x.tree.instances → i.reactor < x.program.reactors.length :=
    fun hi => (Program.elaborateFrom_isUnfolding htree).reactor_lt _ hi
  constructor
  · rintro ⟨i, hi, he⟩
    obtain ⟨hmem, hmay⟩ := List.mem_filter.mp (hsub.subset hi)
    exact ⟨i, hmem, hmay, he⟩
  · rintro ⟨i, hi, hmay, he⟩
    have hwritten : x.className i ∈
        [] ++ (x.emission {} x.tree.instances).map x.className :=
      mem_append_firstOfEach.mpr
        (Or.inr (List.mem_map_of_mem (List.mem_filter.mpr ⟨hi, hmay⟩)))
    rw [List.nil_append] at hwritten
    obtain ⟨j, hj, hname⟩ := List.mem_map.mp hwritten
    have hjmem := (List.mem_filter.mp (hsub.subset hj)).1
    have hreactor : j.reactor = i.reactor :=
      Program.className_injective hnames (hlt hjmem) (hlt hi) hname
    refine ⟨j, hj, ?_⟩
    unfold textOf at he ⊢
    rwa [hreactor]

/-- In a program whose classes have distinct names, an expansion to Python classes fails iff the
class of some instance that is the root or owned, and of no delay class, keeps a broken reaction.
The error is about a container, a variable or a timer: the other errors of references do not occur
after elaboration. -/
theorem expandClasses_fails_iff {top : Nat}
    (hnames : (x.program.reactors.map (·.name)).Nodup)
    (htree : x.program.elaborateFrom top = .ok x.tree) (hx : x.emitter = PythonClass.emitter) :
    ((∃ e, x.expandClasses = .error e) ↔
      ∃ i ∈ x.tree.instances, ∃ r, x.program.reactor? i.reactor = some r ∧
        (i.id = x.tree.root.id ∨ x.federate.owns x.tree i.id = true) ∧
        x.options.isDelayClass r.name = false ∧ x.KeepsBroken i.reactor r) ∧
      (∀ e, x.expandClasses = .error e →
        (∃ container reactor, e = .unknownContainer container reactor) ∨
        (∃ name reactor, e = .unresolvedVariable name reactor) ∨
        ∃ reference, e = .notAPort reference "a timer") ∧
      ∀ i ∈ x.tree.instances, ∀ r, x.program.reactor? i.reactor = some r →
        ∀ ref : VarRef, ∀ name, ref.resolve x.program r ≠ .error (.unknownReactor name) := by
  have hreach : ∀ i ∈ x.tree.instances, ∀ r, x.program.reactor? i.reactor = some r →
      ∀ ref : VarRef, ∀ name, ref.resolve x.program r ≠ .error (.unknownReactor name) :=
    fun i hi r hr => resolve_ne_unknownReactor htree hi hr
  refine ⟨?_, fun e he => ?_, hreach⟩
  · have hemission : (∃ e, x.expandClasses = .error e) ↔
        ∃ i ∈ x.emission {} x.tree.instances, ∃ e, x.textOf i = .error e := by
      rw [← exists_failsAt_iff]
      simp only [expandClasses_eq_error_iff]
      constructor
      · rintro ⟨e, before, i, h⟩
        exact ⟨before, i, e, h⟩
      · rintro ⟨before, i, e, h⟩
        exact ⟨e, before, i, h⟩
    rw [hemission, exists_emission_error_iff hnames htree]
    constructor
    · rintro ⟨i, hi, hmay, he⟩
      obtain ⟨r, hr⟩ := Program.exists_reactor_of_elaborateFrom htree hi
      obtain ⟨howned, hdelay⟩ := (mayWrite_iff hr).mp hmay
      exact ⟨i, hi, r, hr, howned, hdelay, (exists_textOf_error_iff hx hr).mp he⟩
    · rintro ⟨i, hi, r, hr, howned, hdelay, hbroken⟩
      exact ⟨i, hi, (mayWrite_iff hr).mpr ⟨howned, hdelay⟩,
        (exists_textOf_error_iff hx hr).mpr hbroken⟩
  · obtain ⟨before, i, hfails⟩ := expandClasses_eq_error_iff.mp he
    have hi : i ∈ x.tree.instances :=
      (List.mem_filter.mp ((firstOfEach_sublist _ _ _).subset hfails.mem)).1
    obtain ⟨r, hr⟩ := Program.exists_reactor_of_elaborateFrom htree hi
    obtain ⟨_, m, hm⟩ := (textOf_eq_error_iff hx hr).mp hfails.2.2
    rcases PythonClass.cause_of_reactionCode hm.2.2 with ⟨ref, href⟩ | ⟨text, rfl⟩
    · have hne := hreach i hi r hr ref
      rw [← resolve_eq_error_iff] at href
      cases resolve_eq_error_iff.mp href with
      | noContainer => exact Or.inl ⟨_, _, rfl⟩
      | noClass => exact absurd href (hne _)
      | noVariable => exact Or.inr (Or.inl ⟨_, _, rfl⟩)
    · exact Or.inr (Or.inr ⟨text, rfl⟩)

/-- A federate of one worker, whose reaction has a timer as its effect. The reaction of the main
reactor, whose trigger stands for nothing, is left to the federate of the other instance. -/
def timedWorker : Expansion where
  program :=
    { reactors :=
        [{ name := "Leaf" },
         { name := "Worker"
           timers := [{ name := "tick" }]
           reactions := [{ triggers := [{ name := "tick" }], effects := [{ name := "tick" }] }] },
         { name := "Main"
           isFederated := true
           reactions := [{ triggers := [{ container := some "leaf", name := "out" }] }]
           instantiations :=
             [{ name := "leaf", reactorClass := "Leaf" },
              { name := "worker", reactorClass := "Worker" }] }] }
  tree :=
    .ofSites ⟨Text.lowercase "Main", 2, none⟩
      (.cons ⟨"leaf", 0, none⟩ .nil (.cons ⟨"worker", 1, none⟩ .nil .nil))
  federate :=
    FederateLayout.toFederate
      { name := "worker", instantiation := some "worker", excluded := [⟨2, 0⟩] }
  emitter := PythonClass.emitter
  options := {}

theorem expandClasses_fails_iff_timedWorker :
    (timedWorker.program.reactors.map (·.name)).Nodup ∧
      timedWorker.program.elaborateFrom 2 = .ok timedWorker.tree ∧
      ∃ e, timedWorker.expandClasses = .error e ∧ ∀ name, e ≠ .unknownReactor name := by
  have hnames : (timedWorker.program.reactors.map (·.name)).Nodup := by decide
  have htree : timedWorker.program.elaborateFrom 2 = .ok timedWorker.tree := by rfl
  obtain ⟨hfails, hcause, -⟩ := expandClasses_fails_iff hnames htree rfl
  have hworker : (⟨⟨"worker", 1, none⟩, 2, some 0⟩ : Instance) ∈ timedWorker.tree.instances := by
    decide
  have hbroken : timedWorker.KeepsBroken 1
      { name := "Worker"
        timers := [{ name := "tick" }]
        reactions := [{ triggers := [{ name := "tick" }], effects := [{ name := "tick" }] }] } :=
    ⟨0, _, rfl, fun h => absurd h (by decide),
      Or.inr ⟨{ name := "tick" }, by decide, ⟨none, .timer { name := "tick" }⟩, by rfl, rfl⟩⟩
  obtain ⟨e, he⟩ := hfails.mpr ⟨_, hworker, _, rfl, Or.inr (by decide), by decide, hbroken⟩
  refine ⟨hnames, htree, e, he, ?_⟩
  rcases hcause e he with ⟨_, _, rfl⟩ | ⟨_, _, rfl⟩ | ⟨_, rfl⟩ <;> simp

end Expansion

end ReactorSynth
