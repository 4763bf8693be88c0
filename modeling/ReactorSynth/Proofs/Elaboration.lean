import ReactorSynth.Proofs.Unfolding

/-!
# When elaboration succeeds, and how it fails

Elaboration follows the paths of live instantiations from the top reactor: those without a width
and the members of those whose width has a value (`Reached`). A path is written down as a list of
numbers, for each step the position of the instantiation in its reactor and the index of the
member. What elaboration checks has such a place too: the depth of a reactor is checked at the
place of the reactor, `route`, and its `k`-th instantiation at `route ++ [k]`, before its members
at `route ++ [k, m]`. So depth-first declaration order is the lexicographic order of places.

**`elaborateFrom_outcome`**: elaboration yields a tree iff nothing that it reaches violates a rule
(`Elaborable`), and otherwise the error of the violation at the least place (`FirstViolation`).
-/

namespace ReactorSynth.Program

/-! ## Paths and violations -/

/-- A path of `depth` live instantiations leads from one reactor to another along `route`. -/
inductive Reached (p : Program) : Nat → (route : List Nat) → (depth : Nat) → Nat → Prop
  | top (id : Nat) : Reached p id [] 0 id
  | member {id next last k m n depth : Nat} {route : List Nat} {r : Reactor} {i : Instantiation}
      (hr : p.reactor? id = some r) (hi : r.instantiations[k]? = some i)
      (hid : p.reactorId? i.reactorClass = some next) (hn : r.multiplicity? i = some n)
      (hm : m < n) (h : Reached p next route depth last) :
      Reached p id (k :: m :: route) (depth + 1) last

/-- Something reached from `top` is against the rules, with its place and error: a reactor that
instantiates anything at `limit` levels, or a faulty instantiation, dead ones included. -/
inductive Violation (p : Program) (limit top : Nat) : List Nat → GenError → Prop
  | tooDeep {route : List Nat} {depth id : Nat} {r : Reactor}
      (h : p.Reached top route depth id) (hr : p.reactor? id = some r) (hd : limit ≤ depth)
      (hne : r.instantiations ≠ []) : Violation p limit top route (.tooDeep r.name depthLimit)
  | faulty {route : List Nat} {depth id k : Nat} {r : Reactor} {i : Instantiation} {e : GenError}
      (h : p.Reached top route depth id) (hr : p.reactor? id = some r)
      (hi : r.instantiations[k]? = some i) (hf : p.Faulty r i e) :
      Violation p limit top (route ++ [k]) e

/-- The error stands at the least of all places, alone. -/
def IsFirst (V : List Nat → GenError → Prop) (e : GenError) : Prop :=
  ∃ place, V place e ∧ ∀ place' e', V place' e' → (place' = place ∧ e' = e) ∨ place < place'

/-- The error of the first violation in depth-first declaration order. -/
def FirstViolation (p : Program) (top : Nat) (e : GenError) : Prop :=
  IsFirst (p.Violation depthLimit top) e

/-- Everything reached keeps the rules: a reactor at the depth limit instantiates nothing, and
every instantiation, live or not, names a class and has a width with a value if it has one. -/
def Elaborable (p : Program) (top : Nat) : Prop :=
  ∀ route depth id r, p.Reached top route depth id → p.reactor? id = some r →
    (depthLimit ≤ depth → r.instantiations = []) ∧
      ∀ i ∈ r.instantiations, (∃ next, p.reactorId? i.reactorClass = some next) ∧
        ∀ w, i.width = some w → ∃ n, r.widthValue? w = some n

variable {p : Program} {r : Reactor}

/-! ## Violations by instantiation -/

/-- A violation in the check of one instantiation or, with `limit` levels to go, below one of its
members; places start at the member. -/
def ViolationIn (p : Program) (limit : Nat) (r : Reactor) (i : Instantiation) (place : List Nat)
    (e : GenError) : Prop :=
  (place = [] ∧ p.Faulty r i e) ∨
    ∃ next n m rest, p.reactorId? i.reactorClass = some next ∧ r.multiplicity? i = some n ∧
      m < n ∧ place = m :: rest ∧ p.Violation limit next rest e

/-- The same for one of a list of instantiations; places start at its position. -/
def ViolationAmong (p : Program) (limit : Nat) (r : Reactor) (is : List Instantiation)
    (place : List Nat) (e : GenError) : Prop :=
  ∃ k i rest, is[k]? = some i ∧ place = k :: rest ∧ p.ViolationIn limit r i rest e

/-- While levels remain, a reactor has no violation but those of its instantiations. -/
theorem violation_succ_iff {limit id : Nat} {place : List Nat} {e : GenError}
    (hr : p.reactor? id = some r) :
    p.Violation (limit + 1) id place e ↔ p.ViolationAmong limit r r.instantiations place e := by
  constructor
  · rintro (⟨h, hr', hd, hne⟩ | ⟨h, hr', hi, hf⟩)
    · cases h with
      | top => omega
      | member hr1 hi1 hid hn hm h =>
        obtain rfl := Option.some.inj (hr.symm.trans hr1)
        exact ⟨_, _, _, hi1, rfl,
          Or.inr ⟨_, _, _, _, hid, hn, hm, rfl, .tooDeep h hr' (by omega) hne⟩⟩
    · cases h with
      | top =>
        obtain rfl := Option.some.inj (hr.symm.trans hr')
        exact ⟨_, _, [], hi, rfl, Or.inl ⟨rfl, hf⟩⟩
      | member hr1 hi1 hid hn hm h =>
        obtain rfl := Option.some.inj (hr.symm.trans hr1)
        exact ⟨_, _, _, hi1, rfl, Or.inr ⟨_, _, _, _, hid, hn, hm, rfl, .faulty h hr' hi hf⟩⟩
  · rintro ⟨k, i, rest, hi, rfl, ⟨rfl, hf⟩ | ⟨next, n, m, rest, hid, hn, hm, rfl, hv⟩⟩
    · exact .faulty (.top id) hr hi hf
    · cases hv with
      | tooDeep h hr' hd hne =>
        exact .tooDeep (.member hr hi hid hn hm h) hr' (by omega) hne
      | faulty h hr' hi' hf => exact .faulty (.member hr hi hid hn hm h) hr' hi' hf

/-- At the last level nothing is reached but the reactor itself, if it keeps the rules. -/
theorem not_violation_zero {id : Nat} {place : List Nat} {e : GenError}
    (hr : p.reactor? id = some r) (hnil : r.instantiations = []) :
    ¬ p.Violation 0 id place e := by
  have hroot : ∀ {route depth last}, p.Reached id route depth last → last = id := by
    intro route depth last h
    cases h with
    | top => rfl
    | member hr1 hi1 =>
      obtain rfl := Option.some.inj (hr.symm.trans hr1)
      exact absurd hi1 (by simp [hnil])
  rintro (⟨h, hr', -, hne⟩ | ⟨h, hr', hi, -⟩)
  · rw [hroot h] at hr'
    obtain rfl := Option.some.inj (hr.symm.trans hr')
    exact hne hnil
  · rw [hroot h] at hr'
    obtain rfl := Option.some.inj (hr.symm.trans hr')
    exact absurd hi (by simp [hnil])

/-- At the last level the depth check comes before everything else. -/
theorem isFirst_violation_zero {id : Nat} (hr : p.reactor? id = some r)
    (hne : r.instantiations ≠ []) :
    IsFirst (p.Violation 0 id) (.tooDeep r.name depthLimit) := by
  refine ⟨[], .tooDeep (.top id) hr (Nat.le_refl 0) hne, fun place' e' hv => ?_⟩
  cases hv with
  | tooDeep h hr' _ _ =>
    cases h with
    | top =>
      obtain rfl := Option.some.inj (hr.symm.trans hr')
      exact Or.inl ⟨rfl, rfl⟩
    | member => exact Or.inr (List.nil_lt_cons _ _)
  | @faulty route _ _ k _ _ _ h _ _ _ =>
    cases route with
    | nil => exact Or.inr (List.nil_lt_cons _ _)
    | cons a route => exact Or.inr (List.nil_lt_cons _ _)

/-- What is first among the things at a number is first of all, if nothing is at a smaller one. -/
theorem IsFirst.cons {V W : List Nat → GenError → Prop} {k : Nat} {e : GenError} (h : IsFirst W e)
    (hV : ∀ rest e', W rest e' → V (k :: rest) e')
    (hleast : ∀ place e', V place e' →
      ∃ j rest, place = j :: rest ∧ k ≤ j ∧ (j = k → W rest e')) : IsFirst V e := by
  obtain ⟨place, hv, hmin⟩ := h
  refine ⟨k :: place, hV place e hv, fun place' e' hv' => ?_⟩
  obtain ⟨j, rest, rfl, hle, hW⟩ := hleast place' e' hv'
  rcases Nat.lt_or_eq_of_le hle with hlt | rfl
  · exact Or.inr (List.cons_lt_cons_iff.mpr (Or.inl hlt))
  · rcases hmin rest e' (hW rfl) with ⟨rfl, rfl⟩ | hlt
    · exact Or.inl ⟨rfl, rfl⟩
    · exact Or.inr (List.cons_lt_cons_iff.mpr (Or.inr ⟨rfl, hlt⟩))

/-! ## Unfolding meets the first violation -/

/-- What is to be shown of unfolding with some levels left: it succeeds only without violations,
and fails with the first. -/
structure MeetsFirst (p : Program) (limit : Nat) : Prop where
  ok : ∀ {id f}, (∃ r, p.reactor? id = some r) → p.unfold limit id = .ok f →
    ∀ place e, ¬ p.Violation limit id place e
  error : ∀ {id e}, (∃ r, p.reactor? id = some r) → p.unfold limit id = .error e →
    IsFirst (p.Violation limit id) e

theorem not_violationIn_of_placeOne {limit : Nat} (hm : p.MeetsFirst limit) {i : Instantiation}
    {f : Forest Site} (h : p.placeOne (p.unfold limit) r i = .ok f) (place : List Nat)
    (e : GenError) : ¬ p.ViolationIn limit r i place e := by
  obtain ⟨next, n, inner, hid, hn, hb, -⟩ := placeOne_eq_ok_iff.mp h
  rintro (⟨-, hf⟩ | ⟨next', n', m, rest, hid', hn', hlt, -, hv⟩)
  · exact hf.not_multiplicity hid hn
  · obtain rfl := Option.some.inj (hid.symm.trans hid')
    obtain rfl := Option.some.inj (hn.symm.trans hn')
    obtain ⟨r', hr', -⟩ := exists_reactor_of_reactorId hid
    exact hm.ok ⟨r', hr'⟩ (hb (by omega)) rest e hv

/-- A failing instantiation fails by its own fault, or below its first member: all members have
the same below them. -/
theorem isFirst_violationIn_of_placeOne {limit : Nat} (hm : p.MeetsFirst limit)
    {i : Instantiation} {e : GenError} (h : p.placeOne (p.unfold limit) r i = .error e) :
    IsFirst (p.ViolationIn limit r i) e := by
  rcases placeOne_eq_error_iff.mp h with hf | ⟨next, n, hid, hn, hpos, hb⟩
  · refine ⟨[], Or.inl ⟨rfl, hf⟩, ?_⟩
    rintro place' e' (⟨rfl, hf'⟩ | ⟨next, n, m, rest, hid, hn, -⟩)
    · exact Or.inl ⟨rfl, hf'.unique hf⟩
    · exact absurd hn (hf.not_multiplicity hid)
  · obtain ⟨r', hr', -⟩ := exists_reactor_of_reactorId hid
    refine (hm.error ⟨r', hr'⟩ hb).cons (k := 0) (fun rest e' hv => ?_) ?_
    · exact Or.inr ⟨next, n, 0, rest, hid, hn, hpos, rfl, hv⟩
    · rintro place' e' (⟨-, hf⟩ | ⟨next', n', m, rest, hid', hn', -, rfl, hv'⟩)
      · exact absurd hn (hf.not_multiplicity hid)
      · obtain rfl := Option.some.inj (hid.symm.trans hid')
        exact ⟨m, rest, rfl, Nat.zero_le m, fun _ => hv'⟩

theorem not_violationAmong_of_placeAll {limit : Nat} (hm : p.MeetsFirst limit)
    {is : List Instantiation} {f : Forest Site}
    (h : p.placeAll (p.unfold limit) r is = .ok f) (place : List Nat) (e : GenError) :
    ¬ p.ViolationAmong limit r is place e := by
  rintro ⟨k, i, rest, hi, -, hv⟩
  obtain ⟨g, hg⟩ := placeOne_of_placeAll h i (List.mem_of_getElem? hi)
  exact not_violationIn_of_placeOne hm hg rest e hv

theorem isFirst_violationAmong_of_placeAll {limit : Nat} (hm : p.MeetsFirst limit)
    {is : List Instantiation} {e : GenError}
    (h : p.placeAll (p.unfold limit) r is = .error e) :
    IsFirst (p.ViolationAmong limit r is) e := by
  obtain ⟨k, i, hi, he, hbefore⟩ := exists_placeOne_of_placeAll h
  refine (isFirst_violationIn_of_placeOne hm he).cons (k := k) (fun rest e' hv => ?_) ?_
  · exact ⟨k, i, rest, hi, rfl, hv⟩
  · rintro place' e' ⟨j, i', rest, hi', rfl, hv⟩
    refine ⟨j, rest, rfl, ?_, ?_⟩
    · by_cases hlt : j < k
      · obtain ⟨g, hg⟩ := hbefore j hlt i' hi'
        exact absurd hv (not_violationIn_of_placeOne hm hg rest e')
      · omega
    · rintro rfl
      obtain rfl := Option.some.inj (hi.symm.trans hi')
      exact hv

/-- By induction on the levels left: one more level adds the checks of one reactor. -/
theorem meetsFirst (p : Program) (limit : Nat) : p.MeetsFirst limit := by
  induction limit with
  | zero =>
    constructor
    · rintro id f ⟨r, hr⟩ h place e
      rw [unfold_zero hr] at h
      split at h
      · rename_i hempty
        exact not_violation_zero hr (List.isEmpty_iff.mp hempty)
      · exact absurd h (by simp)
    · rintro id e ⟨r, hr⟩ h
      rw [unfold_zero hr] at h
      split at h
      · exact absurd h (by simp)
      · rename_i hne
        obtain rfl := Except.error.inj h
        exact isFirst_violation_zero hr fun hnil => hne (by rw [hnil]; rfl)
  | succ limit ih =>
    constructor
    · rintro id f ⟨r, hr⟩ h place e
      rw [unfold_succ hr] at h
      rw [violation_succ_iff hr]
      exact not_violationAmong_of_placeAll ih h place e
    · rintro id e ⟨r, hr⟩ h
      rw [unfold_succ hr] at h
      obtain ⟨place, hv, hmin⟩ := isFirst_violationAmong_of_placeAll ih h
      exact ⟨place, (violation_succ_iff hr).mpr hv,
        fun place' e' hv' => hmin place' e' ((violation_succ_iff hr).mp hv')⟩

/-! ## Outcomes -/

theorem IsFirst.unique {V : List Nat → GenError → Prop} {e e' : GenError} (h : IsFirst V e)
    (h' : IsFirst V e') : e = e' := by
  obtain ⟨place, hv, hmin⟩ := h
  obtain ⟨place', hv', hmin'⟩ := h'
  rcases hmin place' e' hv' with ⟨-, rfl⟩ | hlt
  · rfl
  · rcases hmin' place e hv with ⟨-, rfl⟩ | hgt
    · rfl
    · exact absurd hgt (List.lt_asymm hlt)

/-- The rules are kept where there is no violation. -/
theorem elaborable_iff {top : Nat} :
    p.Elaborable top ↔ ∀ place e, ¬ p.Violation depthLimit top place e := by
  constructor
  · rintro h place e (⟨hreach, hr, hd, hne⟩ | ⟨hreach, hr, hi, hf⟩)
    · exact hne ((h _ _ _ _ hreach hr).1 hd)
    · obtain ⟨⟨next, hid⟩, hwidth⟩ := (h _ _ _ _ hreach hr).2 _ (List.mem_of_getElem? hi)
      cases hf with
      | unknownClass hnone => exact absurd (hnone.symm.trans hid) (by simp)
      | width _ hw hfails =>
        obtain ⟨n, hn⟩ := hwidth _ hw
        have hnone := Instantiation.widthValue?_eq_none_iff.mpr ⟨_, hfails⟩
        exact absurd (hnone.symm.trans hn) (by simp)
  · intro h route depth id r hreach hr
    refine ⟨fun hd => ?_, fun i hi => ?_⟩
    · by_cases hnil : r.instantiations = []
      · exact hnil
      · exact absurd (.tooDeep hreach hr hd hnil) (h _ _)
    · obtain ⟨k, hk⟩ := List.getElem?_of_mem hi
      have hsound : ∀ e, ¬ p.Faulty r i e := fun e hf => h _ _ (.faulty hreach hr hk hf)
      cases hid : p.reactorId? i.reactorClass with
      | none => exact absurd (.unknownClass hid) (hsound _)
      | some next =>
        refine ⟨⟨next, rfl⟩, fun w hw => ?_⟩
        cases hn : r.widthValue? w with
        | none =>
          obtain ⟨e, hfails⟩ := (Instantiation.widthValue?_eq_none_iff (i := i)).mp hn
          exact absurd (.width hid hw hfails) (hsound e)
        | some n => exact ⟨n, rfl⟩

theorem elaborateFrom_eq_error_iff {top : Nat} {e : GenError} (hr : p.reactor? top = some r) :
    p.elaborateFrom top = .error e ↔ p.unfold depthLimit top = .error e := by
  rw [elaborateFrom, hr]
  cases p.unfold depthLimit top <;> simp [bind, Except.bind, pure, Except.pure]

/-- Elaboration from a reactor yields a tree iff everything it reaches keeps the rules, and fails
with an error iff that is the error of the first violation in depth-first declaration order. -/
theorem elaborateFrom_outcome (p : Program) {top : Nat} (htop : top < p.reactors.length) :
    ((∃ t, p.elaborateFrom top = .ok t) ↔ p.Elaborable top) ∧
      ∀ e, p.elaborateFrom top = .error e ↔ p.FirstViolation top e := by
  have hr : p.reactor? top = some p.reactors[top] := List.getElem?_eq_getElem htop
  have hmeets := p.meetsFirst depthLimit
  constructor
  · rw [elaborable_iff]
    constructor
    · rintro ⟨t, ht⟩
      obtain ⟨r, f, hr, hf, -⟩ := elaborateFrom_eq_ok_iff.mp ht
      exact hmeets.ok ⟨r, hr⟩ hf
    · intro h
      cases hf : p.unfold depthLimit top with
      | ok f => exact ⟨_, elaborateFrom_eq_ok_iff.mpr ⟨_, f, hr, hf, rfl⟩⟩
      | error e =>
        obtain ⟨place, hv, -⟩ := hmeets.error ⟨_, hr⟩ hf
        exact absurd hv (h place e)
  · intro e
    rw [elaborateFrom_eq_error_iff hr]
    constructor
    · exact hmeets.error ⟨_, hr⟩
    · intro hfirst
      cases hf : p.unfold depthLimit top with
      | ok f =>
        obtain ⟨place, hv, -⟩ := hfirst
        exact absurd hv (hmeets.ok ⟨_, hr⟩ hf place e)
      | error e' => rw [(hmeets.error ⟨_, hr⟩ hf).unique hfirst]

/-- A bank without members of a class that instantiates itself, and one of unknown width. -/
def idleLoop : Program where
  reactors :=
    [{ name := "Leaf" },
     { name := "Loop", instantiations := [{ name := "again", reactorClass := "Loop" }] },
     { name := "Main"
       instantiations :=
         [{ name := "idle", reactorClass := "Loop", width := some (.literal 0) },
          { name := "leaf", reactorClass := "Leaf" },
          { name := "rest", reactorClass := "Leaf", width := some (.parameter "n") }] }]

/-- The idle bank is checked but not followed, so the unknown width is the first violation. -/
theorem elaborateFrom_outcome_idleLoop :
    2 < idleLoop.reactors.length ∧ ¬ idleLoop.Elaborable 2 ∧
      idleLoop.FirstViolation 2 (.unresolvedWidth "rest" "n") := by
  have h2 : 2 < idleLoop.reactors.length := by decide
  have herror : idleLoop.elaborateFrom 2 = .error (.unresolvedWidth "rest" "n") := by rfl
  obtain ⟨hok, hfirst⟩ := elaborateFrom_outcome idleLoop h2
  refine ⟨h2, fun h => ?_, (hfirst _).mp herror⟩
  obtain ⟨t, ht⟩ := hok.mpr h
  exact absurd (herror.symm.trans ht) (by simp)

end ReactorSynth.Program
