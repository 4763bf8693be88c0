/-!
# First failures

What goes through a list and stops at the first value that fails: `FailsAt f l before a e` says
that `a` is that value, with the error `e`, and that the values in `before` come before it.

* `failsAt_cons_iff`: the first value fails, or it passes and the rest of the list fails.
* `exists_failsAt_iff`: a list fails iff one of its values does.
* `failsAt_map`: what is made of the values that pass has no bearing on the failure.
* `bind_eq_ok_iff`, `bind_eq_error_iff`: how two steps, one after the other, end.
* `mapM_eq_error_iff`, `mapM_eq_ok_iff`: `List.mapM` ends with the error of the first value that
  fails, or with the results of all values.
-/

namespace ReactorSynth

variable {α β ε : Type} {f : α → Except ε β}

/-- Of the values of a list, those in `before` pass and the next one fails. -/
def FailsAt (f : α → Except ε β) (l before : List α) (a : α) (e : ε) : Prop :=
  (∃ after, l = before ++ a :: after) ∧ (∀ b ∈ before, ∃ c, f b = .ok c) ∧ f a = .error e

theorem FailsAt.mem {l before : List α} {a : α} {e : ε} (h : FailsAt f l before a e) : a ∈ l := by
  obtain ⟨⟨after, rfl⟩, -, -⟩ := h
  simp

theorem not_failsAt_nil {before : List α} {a : α} {e : ε} : ¬ FailsAt f [] before a e := by
  rintro ⟨⟨after, h⟩, -⟩
  simp at h

/-- The first value fails, or it passes and the others fail. -/
theorem failsAt_cons_iff {a b : α} {l before : List α} {e : ε} :
    FailsAt f (b :: l) before a e ↔
      (before = [] ∧ a = b ∧ f b = .error e) ∨
        ∃ c rest, f b = .ok c ∧ before = b :: rest ∧ FailsAt f l rest a e := by
  constructor
  · rintro ⟨⟨after, h⟩, hok, he⟩
    cases before with
    | nil =>
      obtain ⟨rfl, -⟩ := List.cons.inj h
      exact Or.inl ⟨rfl, rfl, he⟩
    | cons b' rest =>
      obtain ⟨rfl, rfl⟩ := List.cons.inj h
      obtain ⟨c, hc⟩ := hok b List.mem_cons_self
      refine Or.inr ⟨c, rest, hc, rfl, ⟨after, rfl⟩, fun d hd => ?_, he⟩
      exact hok d (List.mem_cons_of_mem b hd)
  · rintro (⟨rfl, rfl, he⟩ | ⟨c, rest, hc, rfl, ⟨after, rfl⟩, hok, he⟩)
    · exact ⟨⟨l, rfl⟩, by simp, he⟩
    · refine ⟨⟨after, rfl⟩, fun d hd => ?_, he⟩
      rcases List.mem_cons.mp hd with rfl | hd
      · exact ⟨c, hc⟩
      · exact hok d hd

theorem failsAt_cons_of_error {a b : α} {l before : List α} {e e' : ε} (h : f b = .error e') :
    FailsAt f (b :: l) before a e ↔ before = [] ∧ a = b ∧ e' = e := by
  rw [failsAt_cons_iff, h]
  simp

theorem failsAt_cons_of_ok {a b : α} {l before : List α} {e : ε} {c : β} (h : f b = .ok c) :
    FailsAt f (b :: l) before a e ↔ ∃ rest, before = b :: rest ∧ FailsAt f l rest a e := by
  rw [failsAt_cons_iff, h]
  simp

/-- A list fails, at a place of its own, iff one of its values does. -/
theorem exists_failsAt_iff {l : List α} :
    (∃ before a e, FailsAt f l before a e) ↔ ∃ a ∈ l, ∃ e, f a = .error e := by
  constructor
  · rintro ⟨before, a, e, h⟩
    exact ⟨a, h.mem, e, h.2.2⟩
  · rintro ⟨a, ha, e, he⟩
    induction l with
    | nil => simp at ha
    | cons b l ih =>
      cases hb : f b with
      | error e' => exact ⟨[], b, e', (failsAt_cons_of_error hb).mpr ⟨rfl, rfl, rfl⟩⟩
      | ok c =>
        have hl : a ∈ l := by
          rcases List.mem_cons.mp ha with rfl | hl
          · rw [he] at hb
            simp at hb
          · exact hl
        obtain ⟨before, a', e', h⟩ := ih hl
        exact ⟨b :: before, a', e', (failsAt_cons_of_ok hb).mpr ⟨before, rfl, h⟩⟩

theorem failsAt_map {γ : Type} {g : α → Except ε γ} {φ : γ → β} {l before : List α} {a : α} {e : ε}
    (h : FailsAt g l before a e) : FailsAt (fun a => (g a).map φ) l before a e := by
  obtain ⟨hsplit, hok, he⟩ := h
  refine ⟨hsplit, fun b hb => ?_, by simp only [he, Except.map]⟩
  obtain ⟨c, hc⟩ := hok b hb
  exact ⟨φ c, by simp only [hc, Except.map]⟩

/-! ## Sequences -/

theorem bind_eq_ok_iff {m : Except ε α} {k : α → Except ε β} {b : β} :
    m >>= k = .ok b ↔ ∃ a, m = .ok a ∧ k a = .ok b := by
  cases m <;> simp [bind, Except.bind]

theorem bind_eq_error_iff {m : Except ε α} {k : α → Except ε β} {e : ε} :
    m >>= k = .error e ↔ m = .error e ∨ ∃ a, m = .ok a ∧ k a = .error e := by
  cases m <;> simp [bind, Except.bind]

theorem mapM_eq_error_iff {l : List α} {e : ε} :
    l.mapM f = .error e ↔ ∃ before a, FailsAt f l before a e := by
  induction l with
  | nil => simp [not_failsAt_nil, pure, Except.pure]
  | cons b l ih =>
    simp only [List.mapM_cons, bind_eq_error_iff, ih]
    cases hb : f b with
    | error e' => simp [failsAt_cons_of_error hb]
    | ok c =>
      simp only [failsAt_cons_of_ok hb]
      constructor
      · rintro (h | ⟨_, -, ⟨before, a, h⟩ | ⟨_, -, h⟩⟩)
        · simp at h
        · exact ⟨b :: before, a, before, rfl, h⟩
        · simp [pure, Except.pure] at h
      · rintro ⟨-, a, before, -, h⟩
        exact Or.inr ⟨c, rfl, Or.inl ⟨before, a, h⟩⟩

/-- `List.mapM` ends with results iff every value has one, and then with these in order. -/
theorem mapM_eq_ok_iff {l : List α} {out : List β} :
    l.mapM f = .ok out ↔ l.map f = out.map .ok := by
  induction l generalizing out with
  | nil => cases out <;> simp [pure, Except.pure]
  | cons a l ih =>
    simp only [List.mapM_cons, bind_eq_ok_iff, ih]
    cases out <;> simp [pure, Except.pure]

end ReactorSynth
