import Mathlib.Data.List.DropRight
import Mathlib.Data.String.Basic
import ReactorSynth.Text.Dedent

/-!
# What dedenting takes off

`dedent` drops blank lines at both ends and takes one text off the start of every other line that is
not blank.

* `isVisiblePart_trimLines`: the lines kept are those from the first to the last that is not blank.
* `prefix_sharedIndent_iff`: the text taken off is the longest that the white space of all lines
  that are not blank starts with.
* `sharedIndent?` finds the same text by byte offsets, with cuts that fail inside of a character.
  `sharedIndent?_eq`: no cut fails, however wide the white space is.
* **`dedent_eq_join`**: what `dedent` returns, from the lines of the text alone.
-/

namespace ReactorSynth.Text

/-- The lines that are not blank. -/
def visibleLines (lines : List (List Char)) : List (List Char) :=
  lines.filter fun line => !allBlank line

theorem mem_visibleLines {lines : List (List Char)} {line : List Char} :
    line ∈ visibleLines lines ↔ line ∈ lines ∧ allBlank line = false := by
  simp [visibleLines]

/-! ## Lines kept -/

/-- Of some lines those from the first to the last that is not blank. -/
structure IsVisiblePart (lines body : List (List Char)) : Prop where
  split : ∃ before after, lines = before ++ body ++ after ∧
    ∀ line ∈ before ++ after, allBlank line = true
  first : ∃ line, body.head? = some line ∧ allBlank line = false
  last : ∃ line, body.getLast? = some line ∧ allBlank line = false

theorem trimLines_eq (lines : List (List Char)) :
    trimLines lines = (lines.dropWhile allBlank).rdropWhile allBlank := rfl

theorem trimLines_eq_nil_iff {lines : List (List Char)} :
    trimLines lines = [] ↔ ∀ line ∈ lines, allBlank line = true := by
  rw [trimLines_eq, List.rdropWhile_eq_nil_iff]
  constructor
  · intro h line hline
    rw [← List.takeWhile_append_dropWhile (p := allBlank) (l := lines)] at hline
    rcases List.mem_append.mp hline with hline | hline
    · exact List.mem_takeWhile_imp hline
    · exact h line hline
  · exact fun h line hline => h line ((List.dropWhile_sublist _).subset hline)

theorem isVisiblePart_trimLines {lines : List (List Char)}
    (h : ∃ line ∈ lines, allBlank line = false) : IsVisiblePart lines (trimLines lines) := by
  have hbefore : lines.takeWhile allBlank ++ lines.dropWhile allBlank = lines :=
    List.takeWhile_append_dropWhile
  have hafter : trimLines lines ++ (lines.dropWhile allBlank).rtakeWhile allBlank =
      lines.dropWhile allBlank := List.rdropWhile_append_rtakeWhile
  have hne : trimLines lines ≠ [] := by
    obtain ⟨line, hline, hvisible⟩ := h
    intro hnil
    simp [trimLines_eq_nil_iff.mp hnil line hline] at hvisible
  have hrest : lines.dropWhile allBlank ≠ [] := by
    rw [← hafter]
    exact List.append_ne_nil_of_left_ne_nil hne _
  refine ⟨⟨lines.takeWhile allBlank, (lines.dropWhile allBlank).rtakeWhile allBlank, ?_, ?_⟩,
    ⟨(lines.dropWhile allBlank).head hrest, ?_, List.head_dropWhile_not allBlank hrest⟩,
    ⟨_, List.getLast?_eq_some_getLast hne, ?_⟩⟩
  · rw [List.append_assoc, hafter, hbefore]
  · intro line hline
    rcases List.mem_append.mp hline with hline | hline
    · exact List.mem_takeWhile_imp hline
    · exact List.mem_rtakeWhile_imp hline
  · rw [← List.head?_append_of_ne_nil _ hne, hafter, List.head?_eq_some_head hrest]
  · exact Bool.eq_false_iff.mpr (List.rdropWhile_last_not allBlank _ hne)

theorem IsVisiblePart.subset {lines body : List (List Char)} (h : IsVisiblePart lines body) :
    body ⊆ lines := by
  obtain ⟨before, after, rfl, -⟩ := h.split
  exact fun line hline =>
    List.mem_append_left after (List.mem_append_right before hline)

/-- The lines dropped are blank, so no other line is lost. -/
theorem IsVisiblePart.visibleLines_eq {lines body : List (List Char)}
    (h : IsVisiblePart lines body) : visibleLines body = visibleLines lines := by
  obtain ⟨before, after, rfl, hblank⟩ := h.split
  have hnone : ∀ part ⊆ before ++ after, visibleLines part = [] := fun part hpart =>
    List.filter_eq_nil_iff.mpr fun line hline => by simp [hblank line (hpart hline)]
  simp only [visibleLines, List.filter_append] at hnone ⊢
  rw [hnone before (List.subset_append_left _ _), hnone after (List.subset_append_right _ _),
    List.nil_append, List.append_nil]

/-! ## Text taken off -/

/-- A text is known by the texts it starts with. -/
theorem eq_of_prefix_iff {a b : List Char} (h : ∀ start, start <+: a ↔ start <+: b) : a = b :=
  have hab : a <+: b := (h a).mp List.prefix_rfl
  have hba : b <+: a := (h b).mpr List.prefix_rfl
  hab.eq_of_length_le hba.length_le

/-- The last case of `sharedStart`. -/
theorem eq_nil_or_eq_nil {a b : List Char}
    (h : ∀ c cs d ds, a = c :: cs → b = d :: ds → False) : a = [] ∨ b = [] := by
  cases a with
  | nil => exact .inl rfl
  | cons c cs =>
    cases b with
    | nil => exact .inr rfl
    | cons d ds => exact (h c cs d ds rfl rfl).elim

theorem prefix_sharedStart_iff {start a b : List Char} :
    start <+: sharedStart a b ↔ start <+: a ∧ start <+: b := by
  fun_induction sharedStart a b generalizing start with
  | case1 as c bs ih =>
    simp only [List.prefix_cons_iff, ih]
    grind
  | case2 a as b bs hne =>
    constructor
    · intro h
      simp [List.prefix_nil.mp h]
    · rintro ⟨ha, hb⟩
      cases start with
      | nil => exact List.prefix_rfl
      | cons c cs =>
        rw [List.cons_prefix_cons] at ha hb
        exact absurd (ha.1.symm.trans hb.1) hne
  | case3 a b hnil => rcases eq_nil_or_eq_nil hnil with rfl | rfl <;> simp +contextual

theorem prefix_sharedIndent_iff {lines : List (List Char)} (hne : lines ≠ []) {start : List Char} :
    start <+: sharedIndent lines ↔ ∀ line ∈ lines, start <+: leadingBlanks line := by
  fun_induction sharedIndent lines with
  | case1 => exact absurd rfl hne
  | case2 line => simp
  | case3 line rest hrest ih => simp [prefix_sharedStart_iff, ih hrest]

/-- The longest text that the white space of every line that is not blank starts with: any other
such text is a start of it. -/
structure IsSharedIndent (lines : List (List Char)) (indent : List Char) : Prop where
  shared : ∀ line ∈ lines, allBlank line = false → indent <+: leadingBlanks line
  longest : ∀ start, (∀ line ∈ lines, allBlank line = false → start <+: leadingBlanks line) →
    start <+: indent

theorem isSharedIndent_sharedIndent {lines : List (List Char)}
    (h : ∃ line ∈ lines, allBlank line = false) :
    IsSharedIndent lines (sharedIndent (visibleLines lines)) := by
  obtain ⟨line, hline⟩ := h
  have hne : visibleLines lines ≠ [] := List.ne_nil_of_mem (mem_visibleLines.mpr hline)
  refine ⟨fun line hmem hvisible => ?_, fun start hstart => ?_⟩
  · exact (prefix_sharedIndent_iff hne).mp List.prefix_rfl line
      (mem_visibleLines.mpr ⟨hmem, hvisible⟩)
  · refine (prefix_sharedIndent_iff hne).mpr fun line hmem => ?_
    obtain ⟨hmem, hvisible⟩ := mem_visibleLines.mp hmem
    exact hstart line hmem hvisible

/-- What is taken off is white space, so a line keeps all its other characters. -/
theorem IsSharedIndent.isBlank {lines : List (List Char)} {indent : List Char}
    (h : IsSharedIndent lines indent) (hsome : ∃ line ∈ lines, allBlank line = false) :
    ∀ c ∈ indent, isBlank c = true := by
  obtain ⟨line, hline, hvisible⟩ := hsome
  exact fun c hc => List.mem_takeWhile_imp ((h.shared line hline hvisible).subset hc)

theorem IsSharedIndent.append_drop {lines : List (List Char)} {indent line : List Char}
    (h : IsSharedIndent lines indent) (hline : line ∈ lines) (hvisible : allBlank line = false) :
    indent ++ line.drop indent.length = line :=
  List.prefix_iff_eq_append.mp ((h.shared line hline hvisible).trans (List.takeWhile_prefix _))

/-! ## Byte offsets -/

/-- The characters of a text with their byte offsets, counted from the given one. -/
def charIndices : Nat → List Char → List (Nat × Char)
  | _, [] => []
  | i, c :: cs => (i, c) :: charIndices (i + c.utf8Size) cs

/-- The byte offset where the first text first differs from the second; where neither does, the
length of the shorter one. -/
def partingByte (a b : List Char) : Nat :=
  (((charIndices 0 a).zip b).find? fun pair => pair.1.2 != pair.2).elim
    (min (String.utf8Len a) (String.utf8Len b)) fun pair => pair.1.1

/-- The text before a byte offset. There is none where the offset falls inside of a character or
past the end. -/
def beforeByte? : Nat → List Char → Option (List Char)
  | 0, _ => some []
  | _ + 1, [] => none
  | n + 1, c :: cs =>
    if c.utf8Size ≤ n + 1 then (beforeByte? (n + 1 - c.utf8Size) cs).map (c :: ·) else none

/-- The longest list that both lists start with, cut at a byte offset of the first. -/
def sharedStart? (a b : List Char) : Option (List Char) := beforeByte? (partingByte a b) a

/-- The white space a line starts with, cut at as many bytes as trimming it off takes away. -/
def leadingBlanks? (line : List Char) : Option (List Char) :=
  beforeByte? (String.utf8Len line - String.utf8Len (line.dropWhile isBlank)) line

/-- The white space that every one of the lines starts with, from the first line on; nothing for no
lines. -/
def sharedIndent? : List (List Char) → Option (List Char)
  | [] => some []
  | line :: rest => do
    let indent ← leadingBlanks? line
    rest.foldlM (fun indent line => do sharedStart? indent (← leadingBlanks? line)) indent

theorem beforeByte?_utf8Len (before after : List Char) :
    beforeByte? (String.utf8Len before) (before ++ after) = some before := by
  induction before with
  | nil => simp [beforeByte?]
  | cons c cs ih =>
    have hpos : 0 < c.utf8Size := c.utf8Size_pos
    obtain ⟨n, hn⟩ : ∃ n, String.utf8Len (c :: cs) = n + 1 :=
      Nat.exists_eq_succ_of_ne_zero (by simp; omega)
    have hcut : n + 1 - c.utf8Size = String.utf8Len cs := by
      rw [← hn, String.utf8Len_cons]
      omega
    have hle : c.utf8Size ≤ n + 1 := by
      rw [← hn, String.utf8Len_cons]
      omega
    rw [hn, List.cons_append, beforeByte?, if_pos hle, hcut, ih, Option.map_some]

/-- Offsets are counted from any start, as the recursion moves it along. -/
theorem find?_charIndices_zip (i : Nat) (a b : List Char) :
    (((charIndices i a).zip b).find? fun pair => pair.1.2 != pair.2).elim
      (i + min (String.utf8Len a) (String.utf8Len b)) (fun pair => pair.1.1) =
        i + String.utf8Len (sharedStart a b) := by
  fun_induction sharedStart a b generalizing i with
  | case1 as c bs ih =>
    have hmin : i + min (String.utf8Len (c :: as)) (String.utf8Len (c :: bs)) =
        i + c.utf8Size + min (String.utf8Len as) (String.utf8Len bs) := by
      simp only [String.utf8Len_cons]
      omega
    have hstart : i + String.utf8Len (c :: sharedStart as bs) =
        i + c.utf8Size + String.utf8Len (sharedStart as bs) := by
      simp only [String.utf8Len_cons]
      omega
    rw [hmin, hstart, ← ih]
    simp [charIndices]
  | case2 a as b bs hne => simp [charIndices, hne]
  | case3 a b hnil => rcases eq_nil_or_eq_nil hnil with rfl | rfl <;> simp [charIndices]

theorem partingByte_eq (a b : List Char) :
    partingByte a b = String.utf8Len (sharedStart a b) := by
  simpa [partingByte] using find?_charIndices_zip 0 a b

/-- A cut at as many bytes as a start of the text has is that start. -/
theorem beforeByte?_of_prefix {start cs : List Char} (h : start <+: cs) :
    beforeByte? (String.utf8Len start) cs = some start := by
  obtain ⟨after, rfl⟩ := h
  exact beforeByte?_utf8Len start after

theorem sharedStart?_eq (a b : List Char) : sharedStart? a b = some (sharedStart a b) := by
  rw [sharedStart?, partingByte_eq]
  exact beforeByte?_of_prefix (prefix_sharedStart_iff.mp List.prefix_rfl).1

theorem leadingBlanks?_eq (line : List Char) : leadingBlanks? line = some (leadingBlanks line) := by
  have hlen := congrArg String.utf8Len (leadingBlanks_append_dropWhile line)
  rw [String.utf8Len_append] at hlen
  have hcut : String.utf8Len line - String.utf8Len (line.dropWhile isBlank) =
      String.utf8Len (leadingBlanks line) := by omega
  rw [leadingBlanks?, hcut]
  exact beforeByte?_of_prefix (List.takeWhile_prefix _)

theorem prefix_foldl_sharedStart_iff {start indent : List Char} {lines : List (List Char)} :
    start <+: lines.foldl (fun indent line => sharedStart indent (leadingBlanks line)) indent ↔
      start <+: indent ∧ ∀ line ∈ lines, start <+: leadingBlanks line := by
  induction lines generalizing indent with
  | nil => simp
  | cons line rest ih =>
    simp only [List.foldl_cons, ih, prefix_sharedStart_iff, List.forall_mem_cons, and_assoc]

/-- No cut falls inside of a character, and going from the first line on finds the same text as
going from the last line back. -/
theorem sharedIndent?_eq (lines : List (List Char)) :
    sharedIndent? lines = some (sharedIndent lines) := by
  cases lines with
  | nil => rfl
  | cons line rest =>
    have hfold : sharedIndent? (line :: rest) = some (rest.foldl
        (fun indent line => sharedStart indent (leadingBlanks line)) (leadingBlanks line)) := by
      simp only [sharedIndent?, leadingBlanks?_eq, sharedStart?_eq, Option.bind_eq_bind,
        Option.bind_some]
      exact List.foldlM_pure
    rw [hfold]
    refine congrArg some (eq_of_prefix_iff fun start => ?_)
    rw [prefix_foldl_sharedStart_iff, prefix_sharedIndent_iff (List.cons_ne_nil _ _),
      List.forall_mem_cons]

/-! ## Dedented text -/

theorem dedent_eq_empty {text : String}
    (h : ∀ line ∈ linesList text.toList, allBlank line = true) : dedent text = "" := by
  simp [dedent, dedentLines, trimLines_eq_nil_iff.mpr h]

/-- **Dedented text.** A text of blank lines only dedents to the empty text. From any other text the
lines from the first to the last that is not blank are kept. Blank lines among them become empty,
and the others lose the longest text that the white space of all of them starts with. It is white
space, and no cut on the way to it falls inside of a character. -/
theorem dedent_eq_join (text : String) :
    ((∀ line ∈ linesList text.toList, allBlank line = true) → dedent text = "") ∧
      ((∃ line ∈ linesList text.toList, allBlank line = false) →
        ∃ (body : List (List Char)) (indent : List Char) (rest : List Char → List Char),
          IsVisiblePart (linesList text.toList) body ∧
          IsSharedIndent (linesList text.toList) indent ∧
          (∀ c ∈ indent, isBlank c = true) ∧
          sharedIndent? (visibleLines body) = some indent ∧
          (∀ line ∈ body, allBlank line = true → rest line = []) ∧
          (∀ line ∈ body, allBlank line = false → line = indent ++ rest line) ∧
          dedent text = "\n".intercalate (body.map fun line => String.ofList (rest line))) := by
  refine ⟨dedent_eq_empty, fun h => ?_⟩
  have hbody := isVisiblePart_trimLines h
  have hindent := isSharedIndent_sharedIndent h
  refine ⟨_, _, fun line => if allBlank line then [] else
    line.drop (sharedIndent (visibleLines (linesList text.toList))).length, hbody, hindent,
    hindent.isBlank h, ?_, ?_, ?_, ?_⟩
  · rw [sharedIndent?_eq, hbody.visibleLines_eq]
  · intro line _ hblank
    simp [hblank]
  · intro line hline hvisible
    simp [hvisible, hindent.append_drop (hbody.subset hline) hvisible]
  · simp only [dedent, dedentLines, List.map_map, ← hbody.visibleLines_eq]
    rfl

/-- The white space of the two lines parts after a blank of two bytes, at blanks of three bytes and
of one. -/
def wideBlanks : String := "\n\u00a0\u3000x = 1\n\n\u00a0 y = 2\n"

theorem dedent_eq_join_wideBlanks :
    (∃ line ∈ linesList wideBlanks.toList, allBlank line = false) ∧
      IsSharedIndent (linesList wideBlanks.toList) ['\u00a0'] ∧
      dedent wideBlanks = "\u3000x = 1\n\n y = 2" := by
  have hvisible : ∃ line ∈ linesList wideBlanks.toList, allBlank line = false := by decide
  obtain ⟨body, indent, rest, hbody, hindent, -, hcut, -, -, -⟩ := (dedent_eq_join _).2 hvisible
  rw [hbody.visibleLines_eq] at hcut
  obtain rfl : ['\u00a0'] = indent := Option.some.inj (Eq.trans (by decide) hcut)
  exact ⟨hvisible, hindent, by decide⟩

end ReactorSynth.Text
