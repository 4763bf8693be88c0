import Mathlib.Data.List.Induction
import ReactorSynth.Proofs.Reindentation

/-!
# Runs of a builder

A run is a list of steps taken by a builder that starts without lines, at level zero. The level
follows the balance of indents and unindents, except that an unindent at level zero is lost: so the
level is what the balance has risen above its lowest point so far, and not above zero.

* `CodeBuilder.level_apply`: what one step does to the level.
* `CodeBuilder.isLowest_run`: the level of a run is its balance above the lowest one before.
* `CodeBuilder.render_apply`: what one step adds to the text (`Step.addition`).
* `CodeBuilder.tidy_run`: no line of a run is broken, and none holds white space alone.
* **`CodeBuilder.run_level_and_text`**: all of this for the text of a run at any indent width, which
  only grows and ends in a line feed.
-/

namespace ReactorSynth

/-! ## Tidy code -/

/-- Code whose lines are rendered as they are: none holds a line feed, and one that holds no more
than white space is empty. -/
structure Code.Tidy (code : Code) : Prop where
  unbroken : code.Unbroken
  visible : ∀ line ∈ code, Text.allBlank line.text.toList = true → line.text = ""

namespace Code

variable {a b code : Code}

theorem tidy_nil : Tidy [] := ⟨unbroken_nil, by simp⟩

theorem tidy_blank : Tidy blank := ⟨unbroken_blank, by simp [blank]⟩

theorem Tidy.append (ha : a.Tidy) (hb : b.Tidy) : Tidy (a ++ b) :=
  ⟨unbroken_append.mpr ⟨ha.unbroken, hb.unbroken⟩,
    List.forall_mem_append.mpr ⟨ha.visible, hb.visible⟩⟩

theorem Tidy.nest (h : code.Tidy) (levels : Nat) : Tidy (nest levels code) :=
  ⟨unbroken_nest.mpr h.unbroken, List.forall_mem_map.mpr h.visible⟩

theorem tidy_ofText (text : String) : Tidy (ofText text) := by
  refine ⟨unbroken_ofText text, List.forall_mem_map.mpr fun line _ hblank => ?_⟩
  unfold CodeLine.ofText at hblank ⊢
  cases h : Text.allBlank line.toList with
  | true => rfl
  | false =>
    rw [h] at hblank
    exact absurd (h.symm.trans hblank) Bool.false_ne_true

/-- Of the lines of a text that tidy code renders, only empty ones hold no more than white space. -/
theorem Tidy.eq_empty_of_mem (h : code.Tidy) {width : Nat} {line : String}
    (hline : line ∈ splitLines (code.render width)) (hblank : Text.allBlank line.toList = true) :
    line = "" := by
  rw [splitLines_render h.unbroken, List.mem_append, List.mem_singleton] at hline
  rcases hline with hline | rfl
  · obtain ⟨source, hsource, rfl⟩ := List.mem_map.mp hline
    unfold CodeLine.rendered at hblank ⊢
    split
    · rfl
    · rename_i hne
      rw [if_neg hne, String.toList_append, Text.allBlank_append, Bool.and_eq_true] at hblank
      exact absurd (String.isEmpty_iff.mpr (h.visible source hsource hblank.2)) hne
  · rfl

/-- A rendered text is empty or ends in a line feed. -/
theorem render_eq_empty_or_getLast? (width : Nat) (code : Code) :
    code.render width = "" ∨ (code.render width).toList.getLast? = some '\n' := by
  rcases List.eq_nil_or_concat code with rfl | ⟨before, line, rfl⟩
  · exact Or.inl rfl
  · right
    rw [List.concat_eq_append, render_append]
    simp [render, CodeLine.render_eq]

theorem render_prefix {width : Nat} (h : a <+: b) :
    (a.render width).toList <+: (b.render width).toList := by
  obtain ⟨rest, rfl⟩ := h
  rw [render_append, String.toList_append]
  exact List.prefix_append _ _

end Code

/-! ## Steps -/

namespace CodeBuilder

/-- One step of a builder. -/
inductive Step where
  | indent
  | unindent
  | blank
  | line (text : String)
  deriving DecidableEq, Repr

namespace Step

/-- The builder after a step. -/
def apply (b : CodeBuilder) : Step → CodeBuilder
  | indent => b.indent
  | unindent => b.unindent
  | blank => b.blank
  | line text => b.line text

/-- What a step adds to the text at a level. -/
def addition (width level : Nat) : Step → String
  | indent | unindent => ""
  | blank => "\n"
  | line text => String.ofList ((Text.linesList text.toList).flatMap fun line =>
      Text.reindent (List.replicate (level * width) ' ') line ++ ['\n'])

/-- What a step adds to the balance of indents and unindents. -/
def rise : Step → Int
  | indent => 1
  | unindent => -1
  | blank | line _ => 0

end Step

/-- The builder after some steps, from level zero and without lines. -/
def run (steps : List Step) : CodeBuilder := steps.foldl Step.apply {}

/-- The indents of a run less its unindents. -/
def balance (steps : List Step) : Int := (steps.count .indent : Int) - steps.count .unindent

/-- The lowest balance of a run and of all that came before it, the empty run included. -/
structure IsLowest (steps : List Step) (lowest : Int) : Prop where
  reached : ∃ before, before <+: steps ∧ balance before = lowest
  least : ∀ before, before <+: steps → lowest ≤ balance before

variable {b : CodeBuilder} {steps : List Step} {s : Step} {lowest : Int}

@[simp] theorem run_concat (steps : List Step) (s : Step) :
    run (steps ++ [s]) = s.apply (run steps) := List.foldl_append

/-! ## Levels -/

theorem balance_concat (steps : List Step) (s : Step) :
    balance (steps ++ [s]) = balance steps + s.rise := by
  unfold balance
  rw [List.count_append, List.count_append]
  cases s <;> simp [Step.rise] <;> omega

/-- The level follows the balance, unless it would fall below zero. -/
theorem level_apply (b : CodeBuilder) (s : Step) :
    ((s.apply b).level : Int) = b.level + s.rise ∨
      (s.apply b).level = 0 ∧ (b.level : Int) + s.rise < 0 := by
  cases s with
  | indent => exact Or.inl rfl
  | unindent =>
    change ((b.level - 1 : Nat) : Int) = b.level + -1 ∨ b.level - 1 = 0 ∧ (b.level : Int) + -1 < 0
    omega
  | blank | line text => exact Or.inl (Int.add_zero _).symm

theorem IsLowest.concat_of_le (h : IsLowest steps lowest) (hle : lowest ≤ balance (steps ++ [s])) :
    IsLowest (steps ++ [s]) lowest := by
  obtain ⟨before, hbefore, hlowest⟩ := h.reached
  refine ⟨⟨before, hbefore.trans (List.prefix_append _ _), hlowest⟩, fun other hother => ?_⟩
  rcases List.prefix_concat_iff.mp hother with rfl | hother
  · exact hle
  · exact h.least other hother

theorem IsLowest.concat_of_ge (h : IsLowest steps lowest) (hge : balance (steps ++ [s]) ≤ lowest) :
    IsLowest (steps ++ [s]) (balance (steps ++ [s])) := by
  refine ⟨⟨_, List.prefix_rfl, rfl⟩, fun other hother => ?_⟩
  rcases List.prefix_concat_iff.mp hother with rfl | hother
  · exact Int.le_refl _
  · exact Int.le_trans hge (h.least other hother)

/-- The level of a run is its balance above the lowest balance. -/
theorem isLowest_run (steps : List Step) : IsLowest steps (balance steps - (run steps).level) := by
  induction steps using List.reverseRecOn with
  | nil =>
    refine ⟨⟨[], List.prefix_rfl, rfl⟩, fun before hbefore => ?_⟩
    rw [List.prefix_nil.mp hbefore]
    exact Int.le_refl _
  | append_singleton steps s ih =>
    have hbalance := balance_concat steps s
    rw [run_concat]
    -- A step that the level follows keeps the lowest balance; one that is lost sets it.
    rcases level_apply (run steps) s with hlevel | ⟨hlevel, hlost⟩
    · have hsame : balance (steps ++ [s]) - (s.apply (run steps)).level =
          balance steps - (run steps).level := by omega
      rw [hsame]
      exact ih.concat_of_le (by omega)
    · rw [hlevel, Int.natCast_zero, Int.sub_zero]
      exact ih.concat_of_ge (by omega)

/-! ## Texts -/

theorem render_apply (width : Nat) (b : CodeBuilder) (s : Step) :
    (s.apply b).render width = b.render width ++ s.addition width b.level := by
  cases s with
  | indent | unindent => exact String.append_empty.symm
  | blank => exact render_write width b Code.blank
  | line text =>
    have hline := Text.toList_render_nest_ofText b.level width text
    rw [List.flatMap_map] at hline
    rw [Step.apply, line, render_write, Step.addition, ← hline, String.ofList_toList]

theorem lines_prefix_apply (b : CodeBuilder) (s : Step) : b.lines <+: (s.apply b).lines := by
  cases s with
  | indent | unindent => exact List.prefix_rfl
  | blank | line text => exact List.prefix_append _ _

theorem lines_prefix_foldl (b : CodeBuilder) (steps : List Step) :
    b.lines <+: (steps.foldl Step.apply b).lines := by
  induction steps generalizing b with
  | nil => exact List.prefix_rfl
  | cons s rest ih => exact (lines_prefix_apply b s).trans (ih _)

theorem tidy_apply (h : b.lines.Tidy) (s : Step) : (s.apply b).lines.Tidy := by
  cases s with
  | indent | unindent => exact h
  | blank => exact h.append (Code.tidy_blank.nest b.level)
  | line text => exact h.append ((Code.tidy_ofText text).nest b.level)

theorem tidy_run (steps : List Step) : (run steps).lines.Tidy := by
  induction steps using List.reverseRecOn with
  | nil => exact Code.tidy_nil
  | append_singleton steps s ih =>
    rw [run_concat]
    exact tidy_apply ih s

/-- **Levels and texts of runs.** After any run the level is the balance of indents and unindents
less its lowest value so far. A further step adds to the text what it adds at that level: for each
line of a text a line feed, behind the indented line unless it is blank. So the text of a run is
empty or ends in a line feed, of its lines only empty ones hold no more than white space, and it
starts with the text of everything that came before. -/
theorem run_level_and_text (width : Nat) (steps : List Step) :
    (∃ lowest, IsLowest steps lowest ∧ ((run steps).level : Int) = balance steps - lowest) ∧
    (∀ s, (run (steps ++ [s])).render width =
      (run steps).render width ++ s.addition width (run steps).level) ∧
    ((run steps).render width = "" ∨ ((run steps).render width).toList.getLast? = some '\n') ∧
    (∀ line ∈ splitLines ((run steps).render width),
      Text.allBlank line.toList = true → line = "") ∧
    ∀ before, before <+: steps →
      ((run before).render width).toList <+: ((run steps).render width).toList := by
  refine ⟨⟨_, isLowest_run steps, by omega⟩, fun s => ?_, Code.render_eq_empty_or_getLast? width _,
    fun line hline hblank => (tidy_run steps).eq_empty_of_mem hline hblank, ?_⟩
  · rw [run_concat, render_apply]
  · rintro before ⟨rest, rfl⟩
    rw [run, run, List.foldl_append]
    exact Code.render_prefix (lines_prefix_foldl _ rest)

/-- Unindents at level zero, and a text with a blank line and a carriage return at its end. -/
def unevenSteps : List Step :=
  [.unindent, .indent, .line "a:\r\n \t\n\u00a0b\r", .unindent, .unindent, .indent]

theorem run_level_and_text_unevenSteps :
    balance unevenSteps = -1 ∧ (run unevenSteps).level = 1 ∧ IsLowest unevenSteps (-2) ∧
      (run (unevenSteps ++ [.line "\nc"])).render 2 =
        "  a:\n\n  \u00a0b\r\n" ++ "\n  c\n" ∧
      (∃ line ∈ splitLines ((run unevenSteps).render 2),
        Text.allBlank line.toList = true ∧ line = "") ∧
      unevenSteps.take 3 <+: unevenSteps ∧
      ((run (unevenSteps.take 3)).render 2).toList <+: ((run unevenSteps).render 2).toList := by
  have hbalance : balance unevenSteps = -1 := by decide
  have hlevel : (run unevenSteps).level = 1 := by decide
  have hrender : (run unevenSteps).render 2 = "  a:\n\n  \u00a0b\r\n" := by decide
  have hmem : "" ∈ splitLines ((run unevenSteps).render 2) := by decide
  have hbefore : unevenSteps.take 3 <+: unevenSteps := List.take_prefix 3 unevenSteps
  obtain ⟨⟨lowest, hlowest, heq⟩, hstep, -, hblank, hprefix⟩ := run_level_and_text 2 unevenSteps
  obtain rfl : lowest = -2 := by omega
  refine ⟨hbalance, hlevel, hlowest, ?_, ⟨"", hmem, rfl, hblank "" hmem rfl⟩, hbefore,
    hprefix _ hbefore⟩
  rw [hstep, hrender, hlevel]
  decide

end CodeBuilder

end ReactorSynth
