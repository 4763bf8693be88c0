import Mathlib.Data.Finset.Card
import ReactorSynth.Typing

/-!
# Chains of parameter references

Types are inferred along chains of references: a reference is cut when its parameter is already on
the chain, and when the chain holds `indirectionLimit` parameters.

* `reading` is a second account of the inferred types that keeps no chain. It counts how many
  parameters may still be followed, and reads through a cycle until the count is used up.
* `refReading_of_cycle`: a parameter on a cycle reads as undefined, however far it is followed. A
  cycle of single references never meets a value, and a list on a cycle has an item that is no time.
* **`infer_eq_reading`**: so cutting a cycle where it closes changes no inferred type.
* `followed` has no count and cuts cycles only. It ends because every parameter it follows is one
  that the chain did not hold before.
* **`infer_eq_inferUnbounded`**: in a scope of at most `indirectionLimit` names the limit changes no
  inferred type.
-/

namespace ReactorSynth.Typing

variable {scope : Scope}

/-! ## Reading without a chain -/

/-- A value stands for a time when references have the given types: a time with a unit or of
magnitude zero, a numeral, or a reference to a time. -/
def StandsForTime (typeOf : String → InferredType) : Value → Prop
  | .time t => t.unit ≠ .none ∨ t.magnitude = 0
  | .literal text => isNumeral text = true
  | .parameter name => typeOf name = .time ∨ typeOf name = .explicit .time

instance (typeOf : String → InferredType) : DecidablePred (StandsForTime typeOf)
  | .time t => inferInstanceAs (Decidable (t.unit ≠ .none ∨ t.magnitude = 0))
  | .literal text => inferInstanceAs (Decidable (isNumeral text = true))
  | .parameter name =>
    inferInstanceAs (Decidable (typeOf name = .time ∨ typeOf name = .explicit .time))

/-- The type that values read as when references have the given types. -/
def readValues (typeOf : String → InferredType) : List Value → InferredType
  | [] => .undefined
  | [.parameter name] => typeOf name
  | [value] =>
    if StandsForTime typeOf value ∧ value.isZero = false then .time else .undefined
  | values =>
    if (∀ v ∈ values, StandsForTime typeOf v) ∧ ∃ v ∈ values, v.isZero = false then .timeList
    else .undefined

/-- The type that a declaration reads as when references are followed through at most the given
number of parameters. No account is kept of the parameters passed on the way. -/
def reading (scope : Scope) : Nat → Option DataType → List Value → InferredType
  | _, some type, _ => .explicit type
  | 0, none, init => readValues (fun _ => .undefined) init
  | n + 1, none, init =>
    readValues (fun name =>
      match scope.find? (·.name == name) with
      | none => .undefined
      | some p => reading scope n p.type p.init) init

/-- The type that a reference reads as. -/
def refReading (scope : Scope) (n : Nat) (name : String) : InferredType :=
  reading scope n none [.parameter name]

theorem refReading_succ (n : Nat) (name : String) :
    refReading scope (n + 1) name =
      match scope.find? (·.name == name) with
      | none => .undefined
      | some p => reading scope n p.type p.init := rfl

theorem isTime_iff {type : InferredType} :
    type.isTime = true ↔ type = .time ∨ type = .explicit .time := by
  cases type with
  | explicit type => cases type <;> simp [InferredType.isTime, DataType.isTime]
  | _ => simp [InferredType.isTime]

theorem standsForTime_iff {typeOf : String → InferredType} {v : Value} :
    StandsForTime typeOf v ↔ mayBeTime typeOf v = true := by
  cases v with
  | time t => simp [StandsForTime, mayBeTime, TimeValue.isTime, TimeValue.isZero]
  | literal text => rfl
  | parameter name => exact isTime_iff.symm

/-- Values read as the type that is inferred for them. -/
theorem readValues_eq (typeOf : String → InferredType) (init : List Value) :
    readValues typeOf init = ofValues typeOf init := by
  unfold readValues ofValues
  split
  · rfl
  · rfl
  · simp [standsForTime_iff]
  · simp [standsForTime_iff]

/-- The type of values depends on the types of the references among them alone. -/
theorem ofValues_congr {f g : String → InferredType} {init : List Value}
    (h : ∀ name, .parameter name ∈ init → f name = g name) : ofValues f init = ofValues g init := by
  have hmay : ∀ v ∈ init, mayBeTime f v = mayBeTime g v := by
    rintro (t | name | text) hv
    · rfl
    · rw [mayBeTime, mayBeTime, h name hv]
    · rfl
  have hall : init.all (mayBeTime f) = init.all (mayBeTime g) := by
    rw [Bool.eq_iff_iff, List.all_eq_true, List.all_eq_true]
    exact forall₂_congr fun v hv => by rw [hmay v hv]
  unfold ofValues
  split
  · rfl
  · exact h _ List.mem_cons_self
  · rw [hmay _ List.mem_cons_self]
  · rw [hall]

theorem ofDeclaration_congr {f g : String → InferredType} {type : Option DataType}
    {init : List Value} (h : type = none → ∀ name, .parameter name ∈ init → f name = g name) :
    ofDeclaration f type init = ofDeclaration g type init := by
  cases type with
  | some type => rfl
  | none => exact ofValues_congr (h rfl)

/-- A declaration reads as the type that is inferred for it when references have the types that they
read as. -/
theorem reading_eq (n : Nat) (type : Option DataType) (init : List Value) :
    reading scope n type init = ofDeclaration (refReading scope n) type init := by
  cases type with
  | some type => cases n <;> rfl
  | none =>
    rw [ofDeclaration, ← readValues_eq]
    cases n <;> rfl

/-! ## Cycles -/

/-- A parameter is declared without a type, by values that refer to one of some names. -/
def RefersInto (scope : Scope) (names : List String) (name : String) : Prop :=
  ∃ p, scope.find? (·.name == name) = some p ∧ p.type = none ∧
    ∃ next ∈ names, .parameter next ∈ p.init

theorem RefersInto.mono {names names' : List String} {name : String}
    (h : RefersInto scope names name) (hsub : names ⊆ names') : RefersInto scope names' name := by
  obtain ⟨p, hp, htype, next, hnext, hmem⟩ := h
  exact ⟨p, hp, htype, next, hsub hnext, hmem⟩

/-- Values are undefined when a reference among them is. -/
theorem ofValues_of_undefined {typeOf : String → InferredType} {init : List Value} {name : String}
    (hmem : .parameter name ∈ init) (h : typeOf name = .undefined) :
    ofValues typeOf init = .undefined := by
  have hnot : mayBeTime typeOf (.parameter name) = false := by rw [mayBeTime, h]; rfl
  unfold ofValues
  split
  · rfl
  · rename_i name'
    have hname : name = name' := by simpa using hmem
    exact hname ▸ h
  · rw [← List.mem_singleton.mp hmem, hnot]
    rfl
  · have hall : init.all (mayBeTime typeOf) = false :=
      List.all_eq_false.mpr ⟨_, hmem, by simp [hnot]⟩
    rw [hall]
    rfl

/-- Parameters that all refer to one another are undefined, however far references are followed. -/
theorem refReading_of_cycle {names : List String} (h : ∀ name ∈ names, RefersInto scope names name)
    (n : Nat) {name : String} (hname : name ∈ names) : refReading scope n name = .undefined := by
  induction n generalizing name with
  | zero => rfl
  | succ n ih =>
    obtain ⟨p, hp, htype, next, hnext, hmem⟩ := h name hname
    rw [refReading_succ, hp]
    simp only [htype, reading_eq, ofDeclaration]
    exact ofValues_of_undefined hmem (ih hnext)

/-- A reference has the type that it reads as, when each parameter on the chain refers to another on
the chain or to the one that is looked up. -/
theorem ofParameter_eq_refReading {chain : List String} {name : String}
    (h : ∀ c ∈ chain, RefersInto scope (name :: chain) c) (n : Nat) :
    ofParameter scope n chain name = refReading scope n name := by
  induction n generalizing chain name with
  | zero => rfl
  | succ n ih =>
    rw [ofParameter]
    split
    · rename_i hcut
      -- The chain has closed to a cycle, and `name` is on it.
      have hname : name ∈ chain := List.contains_iff_mem.mp hcut
      have hclosed : ∀ c ∈ chain, RefersInto scope chain c := fun c hc =>
        (h c hc).mono (List.cons_subset.mpr ⟨hname, List.Subset.refl chain⟩)
      exact (refReading_of_cycle hclosed _ hname).symm
    · rw [refReading_succ]
      cases hp : scope.find? (·.name == name) with
      | none => rfl
      | some p =>
        simp only [reading_eq]
        refine ofDeclaration_congr fun htype next hnext => ih fun c hc => ?_
        rcases List.mem_cons.mp hc with rfl | hc
        · exact ⟨p, hp, htype, next, List.mem_cons_self, hnext⟩
        · exact (h c hc).mono (List.subset_cons_self next (name :: chain))

/-- Whatever the scope, the type that is inferred is the one that is read without a chain, with
references followed through at most 32 parameters. So cutting a chain at a parameter that it holds
already changes no type. -/
theorem infer_eq_reading (scope : Scope) (type : Option DataType) (init : List Value) :
    infer scope type init = reading scope 32 type init := by
  rw [reading_eq, infer, inferWithin]
  refine ofDeclaration_congr fun _ name _ => ?_
  exact ofParameter_eq_refReading (by simp) indirectionLimit

/-! ## Following references without a limit -/

/-- The names of a scope that a chain does not hold. -/
def unfollowed (scope : Scope) (chain : List String) : Finset String :=
  (scope.map (·.name)).toFinset \ chain.toFinset

theorem mem_unfollowed {chain : List String} {name : String} {p : Parameter} (hc : name ∉ chain)
    (hp : scope.find? (·.name == name) = some p) : name ∈ unfollowed scope chain := by
  have hname : p.name = name := by simpa using List.find?_some hp
  have hmem : name ∈ scope.map (·.name) := List.mem_map.mpr ⟨p, List.mem_of_find?_eq_some hp, hname⟩
  exact Finset.mem_sdiff.mpr ⟨List.mem_toFinset.mpr hmem, fun h => hc (List.mem_toFinset.mp h)⟩

/-- Following a reference to a new parameter leaves fewer to follow. -/
theorem card_unfollowed_cons_lt {chain : List String} {name : String} {p : Parameter}
    (hc : name ∉ chain) (hp : scope.find? (·.name == name) = some p) :
    (unfollowed scope (name :: chain)).card < (unfollowed scope chain).card := by
  have hcons : unfollowed scope (name :: chain) = (unfollowed scope chain).erase name := by
    rw [unfollowed, unfollowed, List.toFinset_cons, Finset.sdiff_insert]
  rw [hcons]
  exact Finset.card_erase_lt_of_mem (mem_unfollowed hc hp)

/-- The type of a parameter, reached through the parameters in `chain`, when a chain may grow without
a limit. -/
def followed (scope : Scope) (chain : List String) (name : String) : InferredType :=
  if _hc : name ∈ chain then .undefined
  else match _hp : scope.find? (·.name == name) with
    | none => .undefined
    | some p => ofDeclaration (fun next => followed scope (name :: chain) next) p.type p.init
termination_by (unfollowed scope chain).card
decreasing_by exact card_unfollowed_cons_lt _hc _hp

/-- The type of a declaration when chains of references are cut at revisited parameters only. -/
def inferUnbounded (scope : Scope) (type : Option DataType) (init : List Value) : InferredType :=
  ofDeclaration (followed scope []) type init

/-- Whether a value may stand for a time when chains of references are cut after `limit`
parameters. -/
def isTimeValueWithin (limit : Nat) (scope : Scope) (value : Value) : Bool :=
  mayBeTime (ofParameter scope limit []) value

/-- Whether a value may stand for a time when chains of references are cut at revisited parameters
only. -/
def isTimeValueUnbounded (scope : Scope) (value : Value) : Bool :=
  mayBeTime (followed scope []) value

/-- A limit that leaves room for all parameters not yet on the chain does not count. -/
theorem ofParameter_eq_followed {n : Nat} {chain : List String}
    (h : (unfollowed scope chain).card ≤ n) (name : String) :
    ofParameter scope n chain name = followed scope chain name := by
  induction n generalizing chain name with
  | zero =>
    -- No parameter is left to follow: `name` is on the chain or not in scope.
    rw [followed, ofParameter]
    split
    · rfl
    · rename_i hc
      split
      · rfl
      · rename_i p hp
        have hlt := card_unfollowed_cons_lt hc hp
        omega
  | succ n ih =>
    rw [followed, ofParameter]
    simp only [List.contains_iff_mem]
    split
    · rfl
    · rename_i hc
      split
      · rename_i hp
        rw [hp]
      · rename_i p hp
        have hlt := card_unfollowed_cons_lt hc hp
        rw [hp]
        exact ofDeclaration_congr fun _ next _ => ih (by omega) next

/-- In a scope of at most 32 names the limit of 32 decides nothing: a larger limit, or none at all,
gives every declaration the same type, and makes the same values stand for times. -/
theorem infer_eq_inferUnbounded (hscope : (scope.map (·.name)).toFinset.card ≤ 32) :
    (∀ type init, inferUnbounded scope type init = infer scope type init ∧
      ∀ limit, 32 ≤ limit → inferWithin limit scope type init = infer scope type init) ∧
    ∀ value, isTimeValueUnbounded scope value = isTimeValue scope value ∧
      ∀ limit, 32 ≤ limit → isTimeValueWithin limit scope value = isTimeValue scope value := by
  have hlimit : ∀ limit, 32 ≤ limit → ofParameter scope limit [] = followed scope [] := by
    intro limit h
    have hcard : (unfollowed scope []).card ≤ limit := by simpa [unfollowed] using hscope.trans h
    exact funext (ofParameter_eq_followed hcard)
  have hown : ofParameter scope indirectionLimit [] = followed scope [] := hlimit 32 (le_refl 32)
  refine ⟨fun type init => ⟨?_, fun limit h => ?_⟩, fun value => ⟨?_, fun limit h => ?_⟩⟩
  · rw [inferUnbounded, infer, inferWithin, hown]
  · rw [infer, inferWithin, inferWithin, hlimit limit h, hown]
  · rw [isTimeValueUnbounded, isTimeValue, hown]
  · rw [isTimeValueWithin, isTimeValue, hlimit limit h, hown]

/-- Parameters of 32 names, each of which refers to the next one; the last one is a time. -/
def longestChain : Scope :=
  (List.range 32).map fun k =>
    { name := toString k
      init := if k = 31 then [.time ⟨5, .sec⟩] else [.parameter (toString (k + 1))] }

/-- A chain through all names of a scope is followed to its end, and one parameter less would cut
it. -/
theorem infer_eq_inferUnbounded_longestChain :
    (longestChain.map (·.name)).toFinset.card ≤ 32 ∧
      inferWithin 31 longestChain none [.parameter "0"] = .undefined ∧
      infer longestChain none [.parameter "0"] = .time ∧
      inferWithin 1000 longestChain none [.parameter "0"] = .time ∧
      inferUnbounded longestChain none [.parameter "0"] = .time := by
  have hnames : (longestChain.map (·.name)).toFinset.card ≤ 32 :=
    (List.toFinset_card_le _).trans (by simp [longestChain])
  have htime : infer longestChain none [.parameter "0"] = .time := by decide +kernel
  obtain ⟨hunbounded, hwithin⟩ :=
    (infer_eq_inferUnbounded hnames).1 none [.parameter "0"]
  refine ⟨hnames, by decide +kernel, htime, ?_, ?_⟩
  · rw [hwithin 1000 (by decide), htime]
  · rw [hunbounded, htime]

end ReactorSynth.Typing
