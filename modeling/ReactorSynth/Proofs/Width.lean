import ReactorSynth.InstanceTree.Elaborate

/-!
# What a width comes to

`sumWidth` adds up the terms of a width one by one and stops at the first that it cannot use. Here
a width has an exact value instead (`widthValue?`): the sum of the values of its terms, when each
of them has one and the sum is below `widthBound`. The two agree:

* `resolveWidth_eq_ok_iff`: a width resolves to its value and to nothing else.
* `resolveWidth_eq_error_iff`: it fails at the first term that has no value or takes the sum of
  those before it to the bound (`WidthFails`).

`multiplicity?` is the number of instances that an instantiation leaves at each place: one, or the
value of its width.
-/

namespace ReactorSynth

/-! ## Exact values -/

namespace Reactor

/-- The value of a term of a width. -/
def termValue? (r : Reactor) : WidthTerm → Option Nat
  | .literal width => some width.toNat
  | .parameter name => r.parameterWidth? name

/-- The sum of the values of some terms, if each has one. -/
def termSum? (r : Reactor) : List WidthTerm → Option Nat
  | [] => some 0
  | term :: rest => (r.termValue? term).bind fun n => (r.termSum? rest).map (n + ·)

/-- The value of a width: the sum of its terms, if it is below the bound. -/
def widthValue? (r : Reactor) (w : Width) : Option Nat :=
  (r.termSum? w.terms).filter (· < widthBound)

/-- The number of instances that an instantiation leaves: one, or as many as its width says. -/
def multiplicity? (r : Reactor) (i : Instantiation) : Option Nat :=
  match i.width with
  | none => some 1
  | some w => r.widthValue? w

theorem termSum?_cons_eq_some_iff {r : Reactor} {term : WidthTerm} {rest : List WidthTerm}
    {s : Nat} : r.termSum? (term :: rest) = some s ↔
      ∃ n m, r.termValue? term = some n ∧ r.termSum? rest = some m ∧ n + m = s := by
  simp [termSum?, Option.bind_eq_some_iff]

theorem widthValue?_eq_some_iff {r : Reactor} {w : Width} {n : Nat} :
    r.widthValue? w = some n ↔ r.termSum? w.terms = some n ∧ n < widthBound := by
  simp [widthValue?, Option.filter_eq_some_iff]

end Reactor

/-! ## Resolving a width -/

namespace Instantiation

/-- A term cannot be added to a running sum: it has no value, or takes the sum to the bound. -/
inductive TermFails (i : Instantiation) (r : Reactor) (total : Nat) : WidthTerm → GenError → Prop
  | unresolved {name : String} (h : r.parameterWidth? name = none) :
      TermFails i r total (.parameter name) (.unresolvedWidth i.name name)
  | overflow {term : WidthTerm} {n : Nat} (hn : r.termValue? term = some n)
      (h : widthBound ≤ total + n) : TermFails i r total term (.widthOverflow i.name)

/-- Some terms cannot all be added to a running sum: those before a certain one can, and that one
cannot. -/
def WidthFails (i : Instantiation) (r : Reactor) (total : Nat) (terms : List WidthTerm)
    (e : GenError) : Prop :=
  ∃ before term after s, terms = before ++ term :: after ∧ r.termSum? before = some s ∧
    total + s < widthBound ∧ i.TermFails r (total + s) term e

variable {i : Instantiation} {r : Reactor}

theorem termWidth_eq_ok_iff {term : WidthTerm} {n : Nat} :
    i.termWidth r term = .ok n ↔ r.termValue? term = some n := by
  cases term with
  | literal width => simp [termWidth, Reactor.termValue?]
  | parameter name =>
    cases h : r.parameterWidth? name <;> simp [termWidth, Reactor.termValue?, h]

theorem termWidth_eq_error_iff {term : WidthTerm} {e : GenError} :
    i.termWidth r term = .error e ↔
      ∃ name, term = .parameter name ∧ r.parameterWidth? name = none ∧
        .unresolvedWidth i.name name = e := by
  cases term with
  | literal width => simp [termWidth]
  | parameter name => cases h : r.parameterWidth? name <;> simp [termWidth, h]

/-- A running sum below the bound ends in the exact sum or not at all. -/
theorem sumWidth_eq_ok_iff {terms : List WidthTerm} {total n : Nat} (ht : total < widthBound) :
    i.sumWidth r total terms = .ok n ↔
      ∃ s, r.termSum? terms = some s ∧ total + s = n ∧ n < widthBound := by
  induction terms generalizing total with
  | nil =>
    simp only [sumWidth, Reactor.termSum?, Except.ok.injEq, Option.some.injEq]
    constructor
    · rintro rfl
      exact ⟨0, rfl, rfl, ht⟩
    · rintro ⟨s, rfl, rfl, -⟩
      rfl
  | cons term rest ih =>
    simp only [Reactor.termSum?_cons_eq_some_iff]
    cases hterm : i.termWidth r term with
    | error e =>
      have hnone : ∀ a, r.termValue? term ≠ some a := fun a ha => by
        rw [← termWidth_eq_ok_iff (i := i), hterm] at ha
        exact absurd ha (by simp)
      simp only [sumWidth, hterm]
      constructor
      · intro h
        exact absurd h (by simp)
      · rintro ⟨s, ⟨a, b, ha, -⟩, -⟩
        exact absurd ha (hnone a)
    | ok a =>
      have ha : r.termValue? term = some a := termWidth_eq_ok_iff.mp hterm
      simp only [sumWidth, hterm]
      split
      · rename_i hlt
        rw [ih hlt]
        constructor
        · rintro ⟨b, hb, rfl, hn⟩
          exact ⟨a + b, ⟨a, b, ha, hb, rfl⟩, by omega, hn⟩
        · rintro ⟨s, ⟨a', b, ha', hb, rfl⟩, rfl, hn⟩
          obtain rfl : a = a' := Option.some.inj (ha.symm.trans ha')
          exact ⟨b, hb, by omega, hn⟩
      · rename_i hge
        constructor
        · intro h
          exact absurd h (by simp)
        · rintro ⟨s, ⟨a', b, ha', hb, rfl⟩, rfl, hn⟩
          obtain rfl : a = a' := Option.some.inj (ha.symm.trans ha')
          omega

theorem widthFails_nil {total : Nat} {e : GenError} : ¬ i.WidthFails r total [] e := by
  rintro ⟨before, term, after, s, h, -⟩
  exact absurd h (by simp)

/-- The first term fails, or it can be added and the rest fails on top. -/
theorem widthFails_cons_iff {term : WidthTerm} {rest : List WidthTerm} {total : Nat}
    {e : GenError} (ht : total < widthBound) :
    i.WidthFails r total (term :: rest) e ↔
      i.TermFails r total term e ∨
        ∃ n, r.termValue? term = some n ∧ total + n < widthBound ∧
          i.WidthFails r (total + n) rest e := by
  constructor
  · rintro ⟨before, term', after, s, heq, hs, hlt, hf⟩
    cases before with
    | nil =>
      obtain ⟨rfl, -⟩ := List.cons.inj heq
      obtain rfl : 0 = s := Option.some.inj hs
      exact Or.inl hf
    | cons first before =>
      obtain ⟨rfl, rfl⟩ := List.cons.inj heq
      obtain ⟨n, m, hn, hm, rfl⟩ := Reactor.termSum?_cons_eq_some_iff.mp hs
      rw [← Nat.add_assoc] at hlt hf
      exact Or.inr ⟨n, hn, by omega, before, term', after, m, rfl, hm, hlt, hf⟩
  · rintro (hf | ⟨n, hn, -, before, term', after, m, rfl, hm, hlt, hf⟩)
    · exact ⟨[], term, rest, 0, rfl, rfl, ht, hf⟩
    · rw [Nat.add_assoc] at hlt hf
      exact ⟨term :: before, term', after, n + m, rfl,
        Reactor.termSum?_cons_eq_some_iff.mpr ⟨n, m, hn, hm, rfl⟩, hlt, hf⟩

/-- A term with a value fails only by taking the sum to the bound. -/
theorem termFails_iff_of_value {term : WidthTerm} {total n : Nat} {e : GenError}
    (hn : r.termValue? term = some n) :
    i.TermFails r total term e ↔ widthBound ≤ total + n ∧ .widthOverflow i.name = e := by
  constructor
  · rintro (hnone | ⟨hn', hge⟩)
    · exact absurd (hn.symm.trans hnone) (by simp)
    · obtain rfl := Option.some.inj (hn.symm.trans hn')
      exact ⟨hge, rfl⟩
  · rintro ⟨hge, rfl⟩
    exact .overflow hn hge

/-- A parameter without a value fails on every sum. -/
theorem termFails_parameter_iff {name : String} {total : Nat} {e : GenError}
    (hnone : r.parameterWidth? name = none) :
    i.TermFails r total (.parameter name) e ↔ .unresolvedWidth i.name name = e := by
  constructor
  · rintro (_ | ⟨hn, -⟩)
    · rfl
    · exact absurd (hn.symm.trans hnone) (by simp)
  · rintro rfl
    exact .unresolved hnone

/-- A running sum fails exactly where one of its terms does. -/
theorem sumWidth_eq_error_iff {terms : List WidthTerm} {total : Nat} {e : GenError}
    (ht : total < widthBound) :
    i.sumWidth r total terms = .error e ↔ i.WidthFails r total terms e := by
  induction terms generalizing total with
  | nil => simp [sumWidth, widthFails_nil]
  | cons term rest ih =>
    rw [widthFails_cons_iff ht]
    cases hterm : i.termWidth r term with
    | error e' =>
      obtain ⟨name, rfl, hnone, rfl⟩ := termWidth_eq_error_iff.mp hterm
      have hvalue : r.termValue? (.parameter name) = none := hnone
      simp [sumWidth, hterm, termFails_parameter_iff hnone, hvalue]
    | ok n =>
      have hn : r.termValue? term = some n := termWidth_eq_ok_iff.mp hterm
      simp only [sumWidth, hterm, termFails_iff_of_value hn, hn, Option.some.injEq,
        exists_eq_left']
      split
      · rename_i hlt
        rw [ih hlt]
        exact ⟨fun h => Or.inr ⟨hlt, h⟩, fun h => h.elim (fun h => by omega) And.right⟩
      · rename_i hge
        rw [Except.error.injEq]
        exact ⟨fun h => Or.inl ⟨by omega, h⟩, fun h => h.elim And.right fun h => by omega⟩

theorem widthBound_pos : 0 < widthBound := by decide

theorem resolveWidth_eq_ok_iff {w : Width} {n : Nat} :
    i.resolveWidth r w = .ok n ↔ r.widthValue? w = some n := by
  rw [resolveWidth, sumWidth_eq_ok_iff widthBound_pos, Reactor.widthValue?_eq_some_iff]
  simp only [Nat.zero_add]
  constructor
  · rintro ⟨s, hs, rfl, hn⟩
    exact ⟨hs, hn⟩
  · rintro ⟨hs, hn⟩
    exact ⟨n, hs, rfl, hn⟩

theorem resolveWidth_eq_error_iff {w : Width} {e : GenError} :
    i.resolveWidth r w = .error e ↔ i.WidthFails r 0 w.terms e :=
  sumWidth_eq_error_iff widthBound_pos

/-- A width has a value unless it fails. -/
theorem widthValue?_eq_none_iff {w : Width} :
    r.widthValue? w = none ↔ ∃ e, i.WidthFails r 0 w.terms e := by
  simp only [← resolveWidth_eq_error_iff]
  cases h : i.resolveWidth r w with
  | ok n => simp [resolveWidth_eq_ok_iff.mp h]
  | error e =>
    have : ∀ n, r.widthValue? w ≠ some n := fun n hn => by
      rw [← resolveWidth_eq_ok_iff (i := i), h] at hn
      exact absurd hn (by simp)
    simpa [Option.eq_none_iff_forall_ne_some] using this

end Instantiation

end ReactorSynth
