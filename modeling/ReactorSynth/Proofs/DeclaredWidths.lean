import Mathlib.Algebra.Ring.Nat
import Mathlib.Data.List.Forall2
import ReactorSynth.Proofs.Width

/-!
# Widths as declared

The terms of a width stand for numbers: a literal for itself, and a parameter for the number that
its default writes. A text writes a number below the width bound as a run of decimal digits with an
optional plus sign in front, between white space (`WritesWidth`).

* `widthOfText?_eq_some_iff`: the texts that give a width are those that write one.
* `termSum?_eq_some_iff`: the sum of some terms is that of the numbers they stand for, and
  `termSum?_perm`: their order does not count.
* **`resolveWidth_exact`**: a width resolves to the exact sum of its terms, or fails at the first
  term that stands for nothing or takes the sum to the bound.
-/

namespace ReactorSynth

open Text

/-! ## Numbers in texts -/

/-- A text writes a number below the width bound: between white space it holds decimal digits, at
least one, with a plus sign in front of them or none. -/
inductive WritesWidth : String → Nat → Prop
  | intro {text : String} (before sign digits after : List Char)
      (htext : text.toList = before ++ (sign ++ digits) ++ after)
      (hbefore : allBlank before = true) (hafter : allBlank after = true)
      (hsign : sign = [] ∨ sign = ['+']) (hne : digits ≠ [])
      (hdigits : ∀ c ∈ digits, isAsciiDigit c = true) (hbound : decimalValue digits < widthBound) :
      WritesWidth text (decimalValue digits)

theorem isBlank_of_isAsciiDigit {c : Char} (h : isAsciiDigit c = true) : isBlank c = false := by
  simp only [isAsciiDigit, Bool.and_eq_true, decide_eq_true_eq, Char.le_def,
    UInt32.le_iff_toNat_le] at h
  have hcode : 0x30 ≤ c.toNat ∧ c.toNat ≤ 0x39 := h
  simp only [isBlank, Bool.or_eq_false_iff, Bool.and_eq_false_iff, decide_eq_false_iff_not,
    beq_eq_false_iff_ne]
  omega

theorem trimList_of_digits {before sign digits after : List Char}
    (hbefore : allBlank before = true) (hafter : allBlank after = true)
    (hsign : sign = [] ∨ sign = ['+']) (hne : digits ≠ [])
    (hdigits : ∀ c ∈ digits, isAsciiDigit c = true) :
    trimList (before ++ (sign ++ digits) ++ after) = sign ++ digits := by
  have hvisible : ∀ c ∈ sign ++ digits, isBlank c = false := by
    intro c hc
    rcases List.mem_append.mp hc with hc | hc
    · rcases hsign with rfl | rfl
      · exact absurd hc List.not_mem_nil
      · rw [List.mem_singleton.mp hc]
        rfl
    · exact isBlank_of_isAsciiDigit (hdigits c hc)
  exact trimList_append hbefore hafter (List.append_ne_nil_of_right_ne_nil sign hne)
    (fun c hc => hvisible c (List.mem_of_mem_head? hc))
    (fun c hc => hvisible c (List.mem_of_getLast? hc))

/-- A text without the plus sign in front of it, if it has one. -/
def withoutPlus : List Char → List Char
  | '+' :: rest => rest
  | cs => cs

theorem exists_eq_append_withoutPlus (cs : List Char) :
    ∃ sign, (sign = [] ∨ sign = ['+']) ∧ cs = sign ++ withoutPlus cs := by
  unfold withoutPlus
  split
  · exact ⟨['+'], Or.inr rfl, rfl⟩
  · exact ⟨[], Or.inl rfl, rfl⟩

theorem withoutPlus_of_digits {sign digits : List Char} (hsign : sign = [] ∨ sign = ['+'])
    (hdigits : ∀ c ∈ digits, isAsciiDigit c = true) : withoutPlus (sign ++ digits) = digits := by
  rcases hsign with rfl | rfl
  · rw [List.nil_append]
    unfold withoutPlus
    split
    · exact absurd (hdigits '+' List.mem_cons_self) (by decide)
    · rfl
  · rfl

/-- A text gives the width that its digits write. -/
theorem widthOfText?_eq_some_iff_digits {text : String} {n : Nat} :
    widthOfText? text = some n ↔
      ((withoutPlus (trimList text.toList) ≠ [] ∧
        ∀ c ∈ withoutPlus (trimList text.toList), isAsciiDigit c = true) ∧
      decimalValue (withoutPlus (trimList text.toList)) < widthBound) ∧
      decimalValue (withoutPlus (trimList text.toList)) = n := by
  have heq : widthOfText? text =
      if !(withoutPlus (trimList text.toList)).isEmpty &&
        (withoutPlus (trimList text.toList)).all isAsciiDigit &&
        decimalValue (withoutPlus (trimList text.toList)) < widthBound then
          some (decimalValue (withoutPlus (trimList text.toList)))
      else none := rfl
  rw [heq, Option.ite_none_right_eq_some, Option.some.injEq]
  simp only [Bool.and_eq_true, Bool.not_eq_true', List.isEmpty_eq_false_iff, List.all_eq_true,
    decide_eq_true_eq]

/-- The texts that give a width are those that write one. -/
theorem widthOfText?_eq_some_iff {text : String} {n : Nat} :
    widthOfText? text = some n ↔ WritesWidth text n := by
  rw [widthOfText?_eq_some_iff_digits]
  constructor
  · rintro ⟨⟨⟨hne, hdigits⟩, hbound⟩, rfl⟩
    obtain ⟨before, after, htext, hbefore, hafter⟩ := exists_eq_append_trimList text.toList
    obtain ⟨sign, hsign, htrim⟩ := exists_eq_append_withoutPlus (trimList text.toList)
    rw [htrim] at htext
    exact .intro before sign _ after htext hbefore hafter hsign hne hdigits hbound
  · rintro ⟨before, sign, digits, after, htext, hbefore, hafter, hsign, hne, hdigits, hbound⟩
    rw [htext, trimList_of_digits hbefore hafter hsign hne hdigits,
      withoutPlus_of_digits hsign hdigits]
    exact ⟨⟨⟨hne, hdigits⟩, hbound⟩, rfl⟩

/-! ## Terms -/

namespace Reactor

variable {r : Reactor}

/-- What a term of a width stands for in a reactor: a literal for itself, and a parameter for the
number that its default writes, a single literal. Of several parameters of a name the first
counts. -/
inductive TermStands (r : Reactor) : WidthTerm → Nat → Prop
  | literal (width : UInt32) : TermStands r (.literal width) width.toNat
  | parameter {name text : String} {p : Parameter} {n : Nat} (hp : r.parameterNamed? name = some p)
      (hinit : p.init = [.literal text]) (h : WritesWidth text n) :
      TermStands r (.parameter name) n

theorem parameterWidth?_eq_some_iff {name : String} {n : Nat} :
    r.parameterWidth? name = some n ↔
      ∃ p text, r.parameterNamed? name = some p ∧ p.init = [.literal text] ∧ WritesWidth text n := by
  unfold parameterWidth?
  simp only [← widthOfText?_eq_some_iff]
  cases r.parameterNamed? name with
  | none => simp
  | some p =>
    simp only [Option.some.injEq, exists_and_left, exists_eq_left']
    split
    · rename_i text hinit
      simp [hinit]
    · rename_i hinit
      constructor
      · intro h
        exact absurd h (by simp)
      · rintro ⟨text, htext, -⟩
        exact absurd htext (hinit text)

theorem termValue?_eq_some_iff {term : WidthTerm} {n : Nat} :
    r.termValue? term = some n ↔ r.TermStands term n := by
  cases term with
  | literal width =>
    constructor
    · intro h
      obtain rfl := Option.some.inj h
      exact .literal width
    · rintro ⟨⟩
      rfl
  | parameter name =>
    rw [termValue?, parameterWidth?_eq_some_iff]
    constructor
    · rintro ⟨p, text, hp, hinit, h⟩
      exact .parameter hp hinit h
    · rintro (_ | ⟨hp, hinit, h⟩)
      exact ⟨_, _, hp, hinit, h⟩

theorem termValue?_eq_none_iff {term : WidthTerm} :
    r.termValue? term = none ↔ ∀ n, ¬ r.TermStands term n := by
  simp only [Option.eq_none_iff_forall_ne_some, ← termValue?_eq_some_iff]

/-- The sum of some terms is that of the numbers that they stand for. -/
theorem termSum?_eq_some_iff {terms : List WidthTerm} {s : Nat} :
    r.termSum? terms = some s ↔ ∃ values, List.Forall₂ r.TermStands terms values ∧ values.sum = s := by
  induction terms generalizing s with
  | nil => simp [termSum?]
  | cons term rest ih =>
    simp only [termSum?_cons_eq_some_iff, termValue?_eq_some_iff, ih, List.forall₂_cons_left_iff]
    constructor
    · rintro ⟨n, m, hn, ⟨values, hvalues, rfl⟩, rfl⟩
      exact ⟨n :: values, ⟨n, values, hn, hvalues, rfl⟩, List.sum_cons⟩
    · rintro ⟨-, ⟨n, values, hn, hvalues, rfl⟩, rfl⟩
      exact ⟨n, values.sum, hn, ⟨values, hvalues, rfl⟩, List.sum_cons.symm⟩

theorem termSum?_perm {terms terms' : List WidthTerm} (h : terms.Perm terms') :
    r.termSum? terms = r.termSum? terms' := by
  induction h with
  | nil => rfl
  | cons term _ ih => rw [termSum?, termSum?, ih]
  | swap a b rest =>
    simp only [termSum?]
    cases r.termValue? a with
    | none => cases r.termValue? b <;> simp
    | some n =>
      cases r.termValue? b with
      | none => simp
      | some m => cases r.termSum? rest <;> simp [Nat.add_left_comm]
  | trans _ _ ih ih' => exact ih.trans ih'

end Reactor

/-! ## Widths -/

namespace Instantiation

variable {i : Instantiation} {r : Reactor}

theorem termFails_iff {total : Nat} {term : WidthTerm} {e : GenError} :
    i.TermFails r total term e ↔
      (∃ name, term = .parameter name ∧ (∀ n, ¬ r.TermStands term n) ∧
        e = .unresolvedWidth i.name name) ∨
      ∃ n, r.TermStands term n ∧ widthBound ≤ total + n ∧ e = .widthOverflow i.name := by
  constructor
  · rintro (hnone | ⟨hn, hge⟩)
    · exact Or.inl ⟨_, rfl, Reactor.termValue?_eq_none_iff.mp hnone, rfl⟩
    · exact Or.inr ⟨_, Reactor.termValue?_eq_some_iff.mp hn, hge, rfl⟩
  · rintro (⟨name, rfl, hnone, rfl⟩ | ⟨n, hn, hge, rfl⟩)
    · exact .unresolved (Reactor.termValue?_eq_none_iff.mpr hnone)
    · exact .overflow (Reactor.termValue?_eq_some_iff.mpr hn) hge

/-- **Widths are exact.** A width resolves to a number below the bound iff every term stands for a
number and these sum up to it, and then so does every width of the same terms in another order. It
fails at the first term that stands for nothing, named by the error, or takes the sum to the bound
when those before it do not. -/
theorem resolveWidth_exact (i : Instantiation) (r : Reactor) (w : Width) :
    (∀ n, i.resolveWidth r w = .ok n ↔
      n < widthBound ∧ ∃ values, List.Forall₂ r.TermStands w.terms values ∧ values.sum = n) ∧
    (∀ n, i.resolveWidth r w = .ok n →
      ∀ w' : Width, w'.terms.Perm w.terms → i.resolveWidth r w' = .ok n) ∧
    ∀ e, i.resolveWidth r w = .error e ↔
      ∃ before term after values, w.terms = before ++ term :: after ∧
        List.Forall₂ r.TermStands before values ∧ values.sum < widthBound ∧
        ((∃ name, term = .parameter name ∧ (∀ n, ¬ r.TermStands term n) ∧
            e = .unresolvedWidth i.name name) ∨
          ∃ n, r.TermStands term n ∧ widthBound ≤ values.sum + n ∧
            e = .widthOverflow i.name) := by
  refine ⟨fun n => ?_, fun n hn w' hperm => ?_, fun e => ?_⟩
  · rw [resolveWidth_eq_ok_iff, Reactor.widthValue?_eq_some_iff, Reactor.termSum?_eq_some_iff,
      and_comm]
  · rw [resolveWidth_eq_ok_iff, Reactor.widthValue?_eq_some_iff] at hn ⊢
    rwa [Reactor.termSum?_perm hperm]
  · simp only [resolveWidth_eq_error_iff, WidthFails, Reactor.termSum?_eq_some_iff, Nat.zero_add,
      termFails_iff]
    constructor
    · rintro ⟨before, term, after, -, hsplit, ⟨values, hvalues, rfl⟩, hlt, hfails⟩
      exact ⟨before, term, after, values, hsplit, hvalues, hlt, hfails⟩
    · rintro ⟨before, term, after, values, hsplit, hvalues, hlt, hfails⟩
      exact ⟨before, term, after, values.sum, hsplit, ⟨values, hvalues, rfl⟩, hlt, hfails⟩

/-- A parameter with a width as its default, five below the greatest one, and one without. -/
def wideSampler : Reactor where
  name := "Sampler"
  parameters :=
    [{ name := "lanes", init := [.literal " +4294967290\u00a0"] },
     { name := "mask", init := [.literal "0x10"] }]

/-- The bank that `wideSampler` declares. -/
def lanes : Instantiation := { name := "lane", reactorClass := "Lane" }

theorem resolveWidth_exact_wideSampler :
    lanes.resolveWidth wideSampler ⟨[.parameter "lanes", .literal 5]⟩ = .ok 4294967295 ∧
      lanes.resolveWidth wideSampler ⟨[.literal 5, .parameter "lanes"]⟩ = .ok 4294967295 ∧
      lanes.resolveWidth wideSampler ⟨[.parameter "lanes", .literal 6, .parameter "mask"]⟩ =
        .error (.widthOverflow "lane") := by
  have hlanes : wideSampler.TermStands (.parameter "lanes") 4294967290 :=
    .parameter rfl rfl (.intro [' '] ['+'] "4294967290".toList ['\u00a0'] (by decide) (by decide)
      (by decide) (Or.inr rfl) (by decide) (List.all_eq_true.mp rfl) (by decide))
  have hfull := ((resolveWidth_exact lanes wideSampler ⟨[.parameter "lanes", .literal 5]⟩).1
    4294967295).mpr ⟨by decide, [4294967290, 5],
      .cons hlanes (.cons (.literal 5) .nil), by decide⟩
  refine ⟨hfull, ?_, ?_⟩
  · exact (resolveWidth_exact lanes wideSampler _).2.1 _ hfull _ (.swap _ _ [])
  · exact ((resolveWidth_exact lanes wideSampler _).2.2 _).mpr
      ⟨[.parameter "lanes"], .literal 6, [.parameter "mask"], [4294967290], rfl,
        .cons hlanes .nil, by decide, Or.inr ⟨6, .literal 6, by decide, rfl⟩⟩

end Instantiation

end ReactorSynth
