import Mathlib.Data.List.Induction
import Mathlib.Data.List.Nodup
import ReactorSynth.Proofs.BrokenReactions

/-!
# Methods of reactions

How writing the methods of some reactions ends, and what it leaves in the builder.

* `reactionCode_eq_error_iff_breaksWith`: a broken reaction fails with the error of its first
  reference that stands for nothing or, if there is none, of its first timer among the effects.
* `methods_of_failsAt`: the methods before the first broken reaction are written, and of the broken
  one the empty line above it.
* `isMethod_of_reactionCode`: a method takes the names that its references pass, each once, in the
  order of their first occurrences (`FirstOccurrences`).

**`reactions_outcome`** says all of this of the builder.
-/

namespace ReactorSynth

/-! ## First occurrences -/

section FirstOccurrences

variable {α : Type} [DecidableEq α]

/-- The values of a list, each once, in the order of their first occurrences. -/
structure FirstOccurrences (l first : List α) : Prop where
  nodup : first.Nodup
  mem_iff : ∀ a, a ∈ first ↔ a ∈ l
  ordered : first.Pairwise fun a b => l.idxOf a < l.idxOf b

/-- A value behind a list adds itself, unless it occurs in the list. -/
theorem eraseDups_concat (l : List α) (a : α) :
    (l ++ [a]).eraseDups = if a ∈ l then l.eraseDups else l.eraseDups ++ [a] := by
  have hsingle : [a].eraseDups = [a] := by rw [List.eraseDups_cons]; rfl
  rw [List.eraseDups_append, List.removeAll]
  by_cases ha : a ∈ l
  · simp [ha]
  · simp [ha, hsingle]

theorem firstOccurrences_eraseDups (l : List α) : FirstOccurrences l l.eraseDups := by
  induction l using List.reverseRecOn with
  | nil => exact ⟨List.nodup_nil, fun _ => Iff.rfl, List.Pairwise.nil⟩
  | append_singleton l a ih =>
    have hidx : ∀ b ∈ l.eraseDups, (l ++ [a]).idxOf b = l.idxOf b := fun b hb =>
      List.idxOf_append_of_mem ((ih.mem_iff b).mp hb)
    have hordered : l.eraseDups.Pairwise fun b c => (l ++ [a]).idxOf b < (l ++ [a]).idxOf c :=
      ih.ordered.imp_of_mem fun {b c} hb hc hlt => by rwa [hidx b hb, hidx c hc]
    rw [eraseDups_concat]
    by_cases ha : a ∈ l
    · rw [if_pos ha]
      refine ⟨ih.nodup, fun b => ?_, hordered⟩
      rw [ih.mem_iff, List.mem_append, List.mem_singleton]
      exact ⟨Or.inl, fun hb => hb.elim (fun hmem => hmem) fun heq => heq ▸ ha⟩
    · rw [if_neg ha]
      have hnew : a ∉ l.eraseDups := mt (ih.mem_iff a).mp ha
      refine ⟨?_, fun b => ?_, ?_⟩
      · exact ih.nodup.append (List.nodup_singleton a) (List.disjoint_singleton.mpr hnew)
      · rw [List.mem_append, List.mem_append, ih.mem_iff]
      · -- The new value occurs at the end, behind all that have occurred before.
        rw [List.pairwise_append]
        refine ⟨hordered, List.pairwise_singleton _ a, fun b hb c hc => ?_⟩
        obtain rfl := List.mem_singleton.mp hc
        have hlt := List.idxOf_lt_length_of_mem ((ih.mem_iff b).mp hb)
        rw [hidx b hb, List.idxOf_append_of_notMem ha]
        omega

end FirstOccurrences

/-! ## Names that references pass -/

theorem Reactor.name_of_variableNamed? {r : Reactor} {name : String} {target : Variable}
    (h : r.variableNamed? name = some target) : target.name = name := by
  simp only [variableNamed?, portNamed?, actionNamed?, timerNamed?, Option.or_eq_some_iff,
    Option.map_eq_some_iff] at h
  rcases h with ⟨port, hport, rfl⟩ | ⟨-, ⟨action, haction, rfl⟩ | ⟨-, timer, htimer, rfl⟩⟩
  · simpa [Variable.name] using List.find?_some hport
  · simpa [Variable.name] using List.find?_some haction
  · simpa [Variable.name] using List.find?_some htimer

namespace VarRef

/-- The name that a reference passes to the method of its reaction: that of the container it goes
through, or else its own, unless it is that of a timer. -/
def passedName? (ref : VarRef) (r : Reactor) : Option String :=
  match ref.container with
  | some container => some container
  | none => if (r.variableNamed? ref.name).any (·.isTimer) then none else some ref.name

variable {p : Program} {r : Reactor} {ref : VarRef} {v : ResolvedRef}

theorem scope_of_no_container (hc : ref.container = none) : ref.scope p r = .ok (none, r) := by
  unfold scope
  rw [hc]

/-- The container that a reference goes through is the one it names. -/
theorem map_name_of_scope {container : Option Instantiation} {inner : Reactor}
    (h : ref.scope p r = .ok (container, inner)) : container.map (·.name) = ref.container := by
  unfold scope at h
  split at h
  · rename_i hc
    rw [← (Prod.mk.inj (Except.ok.inj h)).1, hc]
    rfl
  · rename_i name hc
    split at h
    · exact absurd h (by simp)
    · rename_i i hi
      split at h
      · exact absurd h (by simp)
      · have hname : i.name = name := by simpa using List.find?_some hi
        rw [← (Prod.mk.inj (Except.ok.inj h)).1, hc, Option.map_some, hname]

theorem resolve_eq_ok_iff : ref.resolve p r = .ok v ↔
    ∃ inner, ref.scope p r = .ok (v.container, inner) ∧
      inner.variableNamed? ref.name = some v.target := by
  constructor
  · intro h
    cases hs : ref.scope p r with
    | error e => simp [resolve, hs] at h
    | ok found =>
      obtain ⟨container, inner⟩ := found
      rw [resolve_of_scope hs] at h
      cases hv : inner.variableNamed? ref.name with
      | none => simp [hv] at h
      | some target =>
        rw [hv] at h
        obtain rfl := Except.ok.inj h
        exact ⟨inner, rfl, hv⟩
  · rintro ⟨inner, hs, hv⟩
    rw [resolve_of_scope hs, hv]

/-- What a reference stands for is passed under the name of the reference. -/
theorem argument?_of_resolve (h : ref.resolve p r = .ok v) : v.argument? = ref.passedName? r := by
  obtain ⟨inner, hscope, hv⟩ := resolve_eq_ok_iff.mp h
  unfold ResolvedRef.argument? passedName?
  cases hc : ref.container with
  | none =>
    rw [scope_of_no_container hc] at hscope
    obtain ⟨hnone, rfl⟩ := Prod.mk.inj (Except.ok.inj hscope)
    rw [← hnone, hv, Option.any_some, Reactor.name_of_variableNamed? hv]
  | some name =>
    have hname := map_name_of_scope hscope
    rw [hc, Option.map_eq_some_iff] at hname
    obtain ⟨i, hi, rfl⟩ := hname
    rw [hi]

end VarRef

/-! ## Broken reactions -/

namespace Reaction

/-- What a broken reaction fails with: its first reference that stands for nothing, in the order in
which they are resolved, or, when every reference stands for something, its first effect that
stands for a timer. -/
inductive BreaksWith (reaction : Reaction) (p : Program) (r : Reactor) : GenError → Prop
  | unresolved {before : List VarRef} {ref : VarRef} {e : GenError}
      (h : FailsAt (·.resolve p r) reaction.references before ref e) : BreaksWith reaction p r e
  | timer {before after : List VarRef} {ref : VarRef} {v : ResolvedRef}
      (hall : ∀ ref ∈ reaction.references, ∃ v, ref.resolve p r = .ok v)
      (hsplit : reaction.effects = before ++ ref :: after)
      (hbefore : ∀ other ∈ before, ∀ w, other.resolve p r = .ok w → w.target.isTimer = false)
      (hv : ref.resolve p r = .ok v) (htimer : v.target.isTimer = true) :
      BreaksWith reaction p r (.notAPort v.text "a timer")

end Reaction

namespace PythonClass

variable {ctx : ClassContext} {reaction : Reaction} {reactions : List (Nat × Reaction)}
  {resolved : ResolvedReaction} {e : GenError}

theorem exists_resolveReaction_iff : (∃ resolved, resolveReaction ctx reaction = .ok resolved) ↔
    ∀ ref ∈ reaction.references, ∃ v, ref.resolve ctx.program ctx.reactor = .ok v := by
  constructor
  · rintro ⟨resolved, h⟩ ref href
    have hmem : ref.resolve ctx.program ctx.reactor ∈
        (resolved.triggers ++ resolved.sources ++ resolved.effects).map .ok :=
      (map_resolve_of_resolveReaction h).1 ▸ List.mem_map_of_mem href
    obtain ⟨v, -, hv⟩ := List.mem_map.mp hmem
    exact ⟨v, hv.symm⟩
  · intro hall
    cases hres : resolveReaction ctx reaction with
    | ok resolved => exact ⟨resolved, rfl⟩
    | error e =>
      obtain ⟨before, ref, hfails⟩ := resolveReaction_eq_error_iff.mp hres
      obtain ⟨v, hv⟩ := hall ref hfails.mem
      exact absurd (hv.symm.trans hfails.2.2) (by simp)

/-- What is no timer has a text as an effect. -/
theorem exists_effectText_iff {v : ResolvedRef} :
    (∃ text, v.effectText = .ok text) ↔ v.target.isTimer = false := by
  rw [← Bool.not_eq_true]
  constructor
  · rintro ⟨text, htext⟩ htimer
    have herror := effectText_eq_error_iff.mpr ⟨htimer, rfl⟩
    exact absurd (htext.symm.trans herror) (by simp)
  · intro htimer
    cases htext : v.effectText with
    | ok text => exact ⟨text, rfl⟩
    | error e => exact absurd (effectText_eq_error_iff.mp htext).1 htimer

/-- A reaction fails by what breaks it, and if nothing does it has a method. -/
theorem reactionCode_eq_error_iff_breaksWith {index : Nat} :
    reactionCode ctx index reaction = .error e ↔
      reaction.BreaksWith ctx.program ctx.reactor e := by
  rw [reactionCode_eq_error_iff]
  constructor
  · rintro (⟨before, ref, hfails⟩ | ⟨resolved, hres, before, v, ⟨after, hvalues⟩, hok, he⟩)
    · exact .unresolved hfails
    · obtain ⟨htimer, rfl⟩ := effectText_eq_error_iff.mp he
      have hmap := (map_resolve_of_resolveReaction hres).2
      rw [hvalues, List.map_append, List.map_cons, List.map_eq_append_iff] at hmap
      obtain ⟨first, second, hsplit, hfirst, hsecond⟩ := hmap
      obtain ⟨ref, rest, rfl, hv, -⟩ := List.map_eq_cons_iff.mp hsecond
      refine .timer (exists_resolveReaction_iff.mp ⟨resolved, hres⟩) hsplit ?_ hv htimer
      intro other hother w hw
      have hmem : other.resolve ctx.program ctx.reactor ∈ before.map Except.ok :=
        hfirst ▸ List.mem_map_of_mem hother
      rw [hw] at hmem
      obtain ⟨w', hw', heq⟩ := List.mem_map.mp hmem
      obtain rfl := Except.ok.inj heq
      exact exists_effectText_iff.mp (hok w' hw')
  · intro h
    cases h with
    | unresolved hfails => exact Or.inl ⟨_, _, hfails⟩
    | @timer before after ref v hall hsplit hbefore hv htimer =>
      obtain ⟨resolved, hres⟩ := exists_resolveReaction_iff.mpr hall
      have hmap := (map_resolve_of_resolveReaction hres).2
      rw [hsplit, List.map_append, List.map_cons, eq_comm, List.map_eq_append_iff] at hmap
      obtain ⟨first, second, hvalues, hfirst, hsecond⟩ := hmap
      obtain ⟨v', rest, rfl, hv', -⟩ := List.map_eq_cons_iff.mp hsecond
      obtain rfl := Except.ok.inj (hv'.trans hv)
      refine Or.inr ⟨resolved, hres, first, v', ⟨rest, hvalues⟩, fun w hw => ?_,
        effectText_eq_error_iff.mpr ⟨htimer, rfl⟩⟩
      have hmem : Except.ok w ∈ before.map (·.resolve ctx.program ctx.reactor) :=
        hfirst ▸ List.mem_map_of_mem hw
      obtain ⟨other, hother, hother'⟩ := List.mem_map.mp hmem
      exact exists_effectText_iff.mpr (hbefore other hother w hother')

/-! ## Methods -/

/-- The method of a reaction opens with a line that takes, behind `self`, the names that its
references pass, each once, in the order of their first occurrences. -/
def IsMethod (ctx : ClassContext) (m : Nat × Reaction) (method : Code) : Prop :=
  ∃ arguments body,
    FirstOccurrences (m.2.references.filterMap (·.passedName? ctx.reactor)) arguments ∧
      method = Code.ofText ("def reaction_function_" ++ toString m.1 ++ "(" ++
        ", ".intercalate ("self" :: arguments) ++ "):") ++ Code.nest 1 body

theorem intercalate_cons_eq_join (sep first : String) (rest : List String) :
    sep.intercalate (first :: rest) = first ++ String.join (rest.map (sep ++ ·)) := by
  induction rest generalizing first with
  | nil => simp
  | cons next rest ih =>
    rw [String.intercalate_cons_of_ne_nil (List.cons_ne_nil _ _), ih, List.map_cons,
      String.join_cons, String.append_assoc, String.append_assoc]

/-- The parameters of a method are `self` and its arguments, with commas between them. -/
theorem signature_eq_parameters (index : Nat) (arguments : List String) :
    signature index arguments = "def reaction_function_" ++ toString index ++ "(" ++
      ", ".intercalate ("self" :: arguments) ++ "):" := by
  have hself : "(self" = "(" ++ "self" := by decide
  have hgroup : ∀ a b c d : String, a ++ (b ++ c) ++ d = a ++ b ++ (c ++ d) := fun a b c d => by
    simp only [String.append_assoc]
  rw [intercalate_cons_eq_join, ← hgroup]
  exact congrArg (fun opening => "def reaction_function_" ++ toString index ++ opening ++
    String.join (arguments.map (", " ++ ·)) ++ "):") hself

/-- The names that a method takes are those that the references of its reaction pass. -/
theorem firstOccurrences_arguments (h : resolveReaction ctx reaction = .ok resolved) :
    FirstOccurrences (reaction.references.filterMap (·.passedName? ctx.reactor))
      resolved.arguments := by
  have hresolve := (map_resolve_of_resolveReaction h).1
  have hall := exists_resolveReaction_iff.mp ⟨resolved, h⟩
  have hnames : reaction.references.filterMap (·.passedName? ctx.reactor) =
      (resolved.triggers ++ resolved.sources ++ resolved.effects).filterMap (·.argument?) := calc
    reaction.references.filterMap (·.passedName? ctx.reactor)
      = (reaction.references.map (·.resolve ctx.program ctx.reactor)).filterMap
          fun found => found.toOption.bind (·.argument?) := by
        rw [List.filterMap_map]
        refine List.filterMap_congr fun ref href => ?_
        obtain ⟨v, hv⟩ := hall ref href
        rw [Function.comp_apply, hv, ← VarRef.argument?_of_resolve hv]
        rfl
    _ = (resolved.triggers ++ resolved.sources ++ resolved.effects).filterMap (·.argument?) := by
        rw [hresolve, List.filterMap_map]
        rfl
  rw [hnames]
  exact firstOccurrences_eraseDups _

theorem isMethod_of_reactionCode {m : Nat × Reaction} {method : Code}
    (h : methodCode ctx m = .ok method) : IsMethod ctx m method := by
  simp only [methodCode, reactionCode, bind_eq_ok_iff] at h
  obtain ⟨resolved, hres, effects, -, hmethod⟩ := h
  rw [signature_eq_parameters] at hmethod
  exact ⟨_, _, firstOccurrences_arguments hres, (Except.ok.inj hmethod).symm⟩

theorem exists_methodCode_iff {m : Nat × Reaction} :
    (∃ method, methodCode ctx m = .ok method) ↔ ¬ m.2.IsBroken ctx.program ctx.reactor := by
  rw [← exists_reactionCode_error_iff ctx m.1 m.2]
  unfold methodCode
  cases reactionCode ctx m.1 m.2 <;> simp

theorem methods_fst_eq_ok_iff : (methods ctx reactions).1 = .ok () ↔
    ∀ m ∈ reactions, ¬ m.2.IsBroken ctx.program ctx.reactor := by
  constructor
  · intro hok m hm hbroken
    obtain ⟨e, he⟩ := (exists_reactionCode_error_iff ctx m.1 m.2).mpr hbroken
    obtain ⟨before, m', e', hfails⟩ :=
      exists_failsAt_iff.mpr ⟨m, hm, e, show methodCode ctx m = .error e from he⟩
    have herror := methods_fst_eq_error_iff.mpr ⟨before, m', hfails⟩
    exact absurd (hok.symm.trans herror) (by simp)
  · intro h
    cases hend : (methods ctx reactions).1 with
    | ok _ => rfl
    | error e =>
      obtain ⟨before, m, hfails⟩ := methods_fst_eq_error_iff.mp hend
      exact absurd ((exists_reactionCode_error_iff ctx m.1 m.2).mp ⟨e, hfails.2.2⟩)
        (h m hfails.mem)

/-- Reactions that are not broken leave their methods, each behind an empty line. -/
theorem exists_methods_of_ok (h : (methods ctx reactions).1 = .ok ()) :
    ∃ written, List.Forall₂ (IsMethod ctx) reactions written ∧
      (methods ctx reactions).2 = written.flatMap (Code.blank ++ ·) := by
  induction reactions with
  | nil => exact ⟨[], .nil, rfl⟩
  | cons m rest ih =>
    rw [methods] at h ⊢
    cases hm : methodCode ctx m with
    | error e =>
      rw [hm] at h
      exact absurd h (by simp)
    | ok method =>
      rw [hm] at h
      obtain ⟨written, hwritten, hcode⟩ := ih h
      refine ⟨method :: written, .cons (isMethod_of_reactionCode hm) hwritten, ?_⟩
      rw [List.flatMap_cons, ← hcode]

/-- The methods before the first broken reaction are written, and of the broken one the empty line
above it. -/
theorem methods_of_failsAt {before : List (Nat × Reaction)} {m : Nat × Reaction}
    (h : FailsAt (methodCode ctx) reactions before m e) :
    methods ctx reactions = (.error e, (methods ctx before).2 ++ Code.blank) ∧
      (methods ctx before).1 = .ok () := by
  induction reactions generalizing before with
  | nil => exact absurd h not_failsAt_nil
  | cons n rest ih =>
    rcases failsAt_cons_iff.mp h with ⟨rfl, rfl, he⟩ | ⟨method, before, hm, rfl, hrest⟩
    · have hmethods : methods ctx (m :: rest) = (.error e, Code.blank) := by rw [methods, he]
      exact ⟨hmethods, rfl⟩
    · obtain ⟨hmethods, hok⟩ := ih hrest
      rw [methods, hm, hmethods, methods, hm]
      exact ⟨by simp, hok⟩

/-- **How the reactions of a class are written**, for any reactions with their positions, in any
order and any number of times each, and behind anything written before. Writing them succeeds iff
none is broken. Otherwise it ends with the error of the first broken one, whose method is not begun:
the builder is that after the reactions before it, with one more empty line. When it succeeds, the
builder is at its level again and holds one method for each reaction, behind an empty line. -/
theorem reactions_outcome (ctx : ClassContext) (reactions : List (Nat × Reaction))
    (b : CodeBuilder) :
    (((emitter.reactions ctx reactions).run.run b).1 = .ok () ↔
        ∀ m ∈ reactions, ¬ m.2.IsBroken ctx.program ctx.reactor) ∧
      (∀ e b', (emitter.reactions ctx reactions).run.run b = (.error e, b') →
        ∃ before m after, reactions = before ++ m :: after ∧
          (∀ n ∈ before, ¬ n.2.IsBroken ctx.program ctx.reactor) ∧
          m.2.BreaksWith ctx.program ctx.reactor e ∧
          ∃ written, (emitter.reactions ctx before).run.run b = (.ok (), written) ∧
            b' = written.blank) ∧
      ∀ b', (emitter.reactions ctx reactions).run.run b = (.ok (), b') →
        b'.level = b.level ∧
          ∃ written, List.Forall₂ (IsMethod ctx) reactions written ∧
            b' = b.write (written.flatMap (Code.blank ++ ·)) := by
  have hrun : ∀ reactions, (emitter.reactions ctx reactions).run.run b =
      ((methods ctx reactions).1, b.write (methods ctx reactions).2) := fun reactions =>
    run_writeReactions ctx reactions b
  rw [hrun]
  refine ⟨methods_fst_eq_ok_iff, fun e b' h => ?_, fun b' h => ?_⟩
  · obtain ⟨hend, rfl⟩ := Prod.mk.inj h
    obtain ⟨before, m, hfails⟩ := methods_fst_eq_error_iff.mp hend
    obtain ⟨hmethods, hok⟩ := methods_of_failsAt hfails
    obtain ⟨⟨after, hsplit⟩, hbefore, he⟩ := hfails
    refine ⟨before, m, after, hsplit, fun n hn => exists_methodCode_iff.mp (hbefore n hn),
      reactionCode_eq_error_iff_breaksWith.mp he, b.write (methods ctx before).2, ?_, ?_⟩
    · rw [hrun, hok]
    · rw [hmethods, CodeBuilder.write_append]
      rfl
  · obtain ⟨hend, rfl⟩ := Prod.mk.inj h
    obtain ⟨written, hwritten, hcode⟩ := exists_methods_of_ok hend
    exact ⟨rfl, written, hwritten, by rw [hcode]⟩

/-- A reactor with a timer, beside an instance of a class with another one. -/
def clockedPair : ClassContext where
  program :=
    { reactors :=
        [{ name := "Clock", timers := [{ name := "tick" }] },
         { name := "Pair"
           ports := [{ name := "out", direction := .output }]
           timers := [{ name := "tick" }]
           instantiations := [{ name := "clock", reactorClass := "Clock" }] }] }
  id := 1
  reactor :=
    { name := "Pair"
      ports := [{ name := "out", direction := .output }]
      timers := [{ name := "tick" }]
      instantiations := [{ name := "clock", reactorClass := "Clock" }] }
  options := {}

-- A container is passed even for a timer in it. As an effect that timer counts only when all
-- references stand for something.
example :
    ((emitter.reactions clockedPair
      [(0, { triggers := [{ container := some "clock", name := "tick" }, { name := "tick" }]
             sources := [{ name := "out" }, { container := some "clock", name := "tick" }]
             effects := [{ name := "out" }] }),
       (4, { effects := [{ container := some "clock", name := "tick" }] })]).run.run
        { level := 1 }) =
      (.error (.notAPort "clock.tick" "a timer"),
        { level := 1
          lines := [⟨1, ""⟩, ⟨1, "def reaction_function_0(self, clock, out):"⟩,
            ⟨2, "# effects: out"⟩, ⟨2, "return 0"⟩, ⟨1, ""⟩] }) ∧
    ((emitter.reactions clockedPair
      [(4, { effects := [{ container := some "clock", name := "tick" }, { name := "in" }] })]).run.run
        {}).1 = .error (.unresolvedVariable "in" "Pair") := by
  exact ⟨rfl, rfl⟩

end PythonClass

end ReactorSynth
