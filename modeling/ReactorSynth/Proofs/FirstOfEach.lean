/-!
# The first of each key

`firstOfEach` keeps of a list the first value of each key that is not among some keys seen before.
Lists are taken in parts by `firstOfEach_append`, and keys alone by `map_firstOfEach`; the keys
kept are new and distinct (`nodup_firstOfEach`), and with those seen they are all keys there are
(`mem_append_firstOfEach`). Once some of the values kept have been seen too, the others are kept
(`firstOfEach_resume`).

`enterAll` keeps keys behind those seen before. A list whose keys have all been seen adds nothing
(`enterAll_of_subset`), whatever came before (`enterAll_append`).
-/

namespace ReactorSynth

variable {α κ : Type} [DecidableEq κ]

/-- Of some values those whose key is not in `seen` and has not come before. -/
def firstOfEach (key : α → κ) : (seen : List κ) → List α → List α
  | _, [] => []
  | seen, a :: rest =>
    if key a ∈ seen then firstOfEach key seen rest
    else a :: firstOfEach key (seen ++ [key a]) rest

theorem firstOfEach_sublist (key : α → κ) (seen : List κ) (l : List α) :
    (firstOfEach key seen l).Sublist l := by
  induction l generalizing seen with
  | nil => exact List.Sublist.refl _
  | cons a rest ih =>
    unfold firstOfEach
    split
    · exact (ih seen).cons a
    · exact (ih (seen ++ [key a])).cons_cons a

theorem firstOfEach_append (key : α → κ) (seen : List κ) (l m : List α) :
    firstOfEach key seen (l ++ m) =
      firstOfEach key seen l ++ firstOfEach key (seen ++ (firstOfEach key seen l).map key) m := by
  induction l generalizing seen with
  | nil => rw [List.nil_append, firstOfEach, List.map_nil, List.append_nil, List.nil_append]
  | cons a rest ih =>
    rw [List.cons_append, firstOfEach, firstOfEach]
    split
    · exact ih seen
    · rw [ih, List.map_cons, List.cons_append, ← List.append_cons]

/-- Keys that depend on an image of the values alone may be taken from the image. -/
theorem firstOfEach_image {β : Type} (φ : α → β) (key : β → κ) (seen : List κ) (l : List α) :
    (firstOfEach (fun a => key (φ a)) seen l).map φ = firstOfEach key seen (l.map φ) := by
  induction l generalizing seen with
  | nil => rfl
  | cons a rest ih =>
    rw [List.map_cons, firstOfEach, firstOfEach]
    split
    · exact ih seen
    · rw [List.map_cons, ih]

theorem map_firstOfEach (key : α → κ) (seen : List κ) (l : List α) :
    (firstOfEach key seen l).map key = firstOfEach id seen (l.map key) := by
  induction l generalizing seen with
  | nil => rfl
  | cons a rest ih =>
    rw [List.map_cons, firstOfEach, firstOfEach]
    simp only [id]
    split
    · exact ih seen
    · rw [List.map_cons, ih]

/-- The keys seen before and those kept are all keys. -/
theorem mem_append_firstOfEach {key : α → κ} {seen : List κ} {l : List α} {k : κ} :
    k ∈ seen ++ (firstOfEach key seen l).map key ↔ k ∈ seen ∨ k ∈ l.map key := by
  induction l generalizing seen with
  | nil => simp [firstOfEach]
  | cons a rest ih =>
    unfold firstOfEach
    split
    · rename_i h
      rw [ih, List.map_cons, List.mem_cons]
      constructor
      · rintro (hk | hk)
        · exact Or.inl hk
        · exact Or.inr (Or.inr hk)
      · rintro (hk | rfl | hk)
        · exact Or.inl hk
        · exact Or.inl h
        · exact Or.inr hk
    · rw [List.map_cons, List.append_cons, ih, List.mem_append, List.mem_singleton, List.map_cons,
        List.mem_cons, or_assoc]

/-- The keys kept are distinct and not among those seen before. -/
theorem nodup_firstOfEach (key : α → κ) (seen : List κ) (l : List α) :
    ((firstOfEach key seen l).map key).Nodup ∧ ∀ a ∈ firstOfEach key seen l, key a ∉ seen := by
  induction l generalizing seen with
  | nil => exact ⟨List.nodup_nil, fun a ha => absurd ha List.not_mem_nil⟩
  | cons a rest ih =>
    unfold firstOfEach
    split
    · exact ih seen
    · rename_i h
      obtain ⟨hnodup, hnew⟩ := ih (seen ++ [key a])
      simp only [List.mem_append, List.mem_singleton, not_or] at hnew
      refine ⟨?_, fun b hb => ?_⟩
      · rw [List.map_cons, List.nodup_cons]
        refine ⟨fun hmem => ?_, hnodup⟩
        obtain ⟨b, hb, hkey⟩ := List.mem_map.mp hmem
        exact (hnew b hb).2 hkey
      · rcases List.mem_cons.mp hb with rfl | hb
        · exact h
        · exact (hnew b hb).1

/-- When some of the values kept have been seen as well, the others are kept. -/
theorem firstOfEach_resume {key : α → κ} {seen : List κ} {l before after : List α}
    (h : firstOfEach key seen l = before ++ after) :
    firstOfEach key (seen ++ before.map key) l = after := by
  induction l generalizing seen before with
  | nil =>
    rw [firstOfEach, List.nil_eq, List.append_eq_nil_iff] at h
    rw [firstOfEach, h.2]
  | cons a rest ih =>
    by_cases ha : key a ∈ seen
    · rw [firstOfEach, if_pos ha] at h
      rw [firstOfEach, if_pos (List.mem_append_left _ ha)]
      exact ih h
    · cases before with
      | nil => rwa [List.map_nil, List.append_nil]
      | cons b before =>
        rw [firstOfEach, if_neg ha] at h
        obtain ⟨rfl, htail⟩ := List.cons.inj h
        rw [firstOfEach, if_pos (by simp), List.map_cons, List.append_cons]
        exact ih htail

/-- Of keys with a property the first are those of all keys that have it, as long as the same keys
with the property have been seen. -/
theorem firstOfEach_filter {q : κ → Bool} {seen seen' : List κ} (l : List κ)
    (h : ∀ k, q k = true → (k ∈ seen ↔ k ∈ seen')) :
    firstOfEach id seen (l.filter q) = (firstOfEach id seen' l).filter q := by
  induction l generalizing seen seen' with
  | nil => rfl
  | cons k rest ih =>
    by_cases hk : q k = true
    · rw [List.filter_cons_of_pos hk, firstOfEach, firstOfEach]
      simp only [id]
      by_cases hseen : k ∈ seen
      · rw [if_pos hseen, if_pos ((h k hk).mp hseen), ih h]
      · rw [if_neg hseen, if_neg fun hseen' => hseen ((h k hk).mpr hseen'),
          List.filter_cons_of_pos hk, ih]
        intro k' hk'
        rw [List.mem_append, List.mem_append, h k' hk']
    · rw [List.filter_cons_of_neg hk, firstOfEach]
      split
      · exact ih h
      · rw [List.filter_cons_of_neg hk]
        refine ih fun k' hk' => ?_
        rw [List.mem_append, List.mem_singleton, h k' hk']
        refine ⟨Or.inl, fun hor => hor.elim (fun hmem => hmem) ?_⟩
        rintro rfl
        exact absurd hk' hk

/-- Renaming keys apart changes nothing about which come first. -/
theorem firstOfEach_map {κ' : Type} [DecidableEq κ'] {φ : κ → κ'} (seen l : List κ)
    (h : ∀ a ∈ seen ++ l, ∀ b ∈ seen ++ l, φ a = φ b → a = b) :
    firstOfEach id (seen.map φ) (l.map φ) = (firstOfEach id seen l).map φ := by
  induction l generalizing seen with
  | nil => rfl
  | cons k rest ih =>
    rw [List.map_cons, firstOfEach, firstOfEach]
    simp only [id]
    have hmem : φ k ∈ seen.map φ ↔ k ∈ seen := by
      refine ⟨fun hk => ?_, List.mem_map_of_mem⟩
      obtain ⟨a, ha, heq⟩ := List.mem_map.mp hk
      rw [← h a (List.mem_append_left _ ha) k (List.mem_append_right _ List.mem_cons_self) heq]
      exact ha
    by_cases hk : k ∈ seen
    · rw [if_pos (hmem.mpr hk), if_pos hk]
      have hsub : seen ++ rest ⊆ seen ++ k :: rest :=
        ((List.sublist_cons_self k rest).append_left seen).subset
      exact ih seen fun a ha b hb => h a (hsub ha) b (hsub hb)
    · rw [if_neg (mt hmem.mp hk), if_neg hk, List.map_cons]
      have hseen : seen.map φ ++ [φ k] = (seen ++ [k]).map φ := by rw [List.map_append]; rfl
      rw [hseen, ih]
      rw [← List.append_cons]
      exact h

/-! ## Entering keys -/

/-- Keys seen before, and behind them those of a list that are new, each once. -/
def enterAll (seen l : List κ) : List κ := seen ++ firstOfEach id seen l

theorem mem_enterAll {seen l : List κ} {k : κ} : k ∈ enterAll seen l ↔ k ∈ seen ∨ k ∈ l := by
  have h : k ∈ seen ++ (firstOfEach id seen l).map id ↔ k ∈ seen ∨ k ∈ l.map id :=
    mem_append_firstOfEach
  rw [List.map_id, List.map_id] at h
  exact h

theorem enterAll_append (seen l m : List κ) :
    enterAll seen (l ++ m) = enterAll (enterAll seen l) m := by
  rw [enterAll, firstOfEach_append, List.map_id, enterAll, enterAll, List.append_assoc]

theorem enterAll_of_subset {seen l : List κ} (h : l ⊆ seen) : enterAll seen l = seen := by
  induction l with
  | nil => rw [enterAll, firstOfEach, List.append_nil]
  | cons k rest ih =>
    obtain ⟨hk, hrest⟩ := List.cons_subset.mp h
    rw [enterAll, firstOfEach, if_pos (show id k ∈ seen from hk)]
    exact ih hrest

theorem enterAll_cons_of_not_mem {seen l : List κ} {k : κ} (h : k ∉ seen) :
    enterAll seen (k :: l) = enterAll (seen ++ [k]) l := by
  rw [enterAll, firstOfEach, if_neg (show id k ∉ seen from h), enterAll, List.append_cons]
  rfl

end ReactorSynth
