import ReactorSynth.Proofs.Indentation
import ReactorSynth.Proofs.SourceLines

/-!
# Indentation taken off and put back

Dedented text is a normal form of indented text: `dedent` leaves it as it is, and brings back to it
whatever a builder makes of the text at any level.

* `carriageReturn_of_linesList`: a line ends in a carriage return only in a text that ends in one
  or has two of them before a line feed. Any other line is read back when a line feed is written
  behind it (`linesList_append_lineFeed`).
* `dedentLines_map_reindent`: white space that is put in front of every line that is not blank has
  no bearing on what dedenting leaves of the lines.
* `dedentLines_dedentLines` is a case of it: dedented lines, put back behind what they have lost,
  are the lines that they come from.
* **`dedent_normal_form`**: dedenting twice is dedenting once, and dedenting indented text is
  dedenting the text.
-/

namespace ReactorSynth.Text

/-! ## Lines read back -/

/-- A line that a line feed may follow: it holds none, and has no carriage return at its end. -/
def IsWholeLine (line : List Char) : Prop := '\n' ∉ line ∧ line.getLast? ≠ some '\r'

theorem linesList_append_lineFeed {line : List Char} (h : IsWholeLine line) (rest : List Char) :
    linesList (line ++ '\n' :: rest) = line :: linesList rest := by
  induction line with
  | nil => rw [List.nil_append, linesList]
  | cons c line ih =>
    obtain ⟨hfeed, hend⟩ := h
    rw [List.mem_cons, not_or] at hfeed
    have hline : IsWholeLine line :=
      ⟨hfeed.2, fun hr => hend (by rw [List.getLast?_cons, hr, Option.getD_some])⟩
    rw [List.cons_append, linesList, ih hline, consFirst]
    · rintro rest' rfl heq
      cases line with
      | nil => exact hend rfl
      | cons d line =>
        obtain ⟨rfl, -⟩ := List.cons.inj heq
        exact hfeed.2 List.mem_cons_self
    · exact fun hc => hfeed.1 hc.symm

theorem linesList_flatMap_lineFeed {lines : List (List Char)}
    (h : ∀ line ∈ lines, IsWholeLine line) :
    linesList (lines.flatMap (· ++ ['\n'])) = lines := by
  induction lines with
  | nil => rfl
  | cons line rest ih =>
    obtain ⟨hline, hrest⟩ := List.forall_mem_cons.mp h
    rw [List.flatMap_cons, List.append_assoc, List.singleton_append,
      linesList_append_lineFeed hline, ih hrest]

/-- Lines with line feeds between them are read back. No line feed follows the last one: it may
end in a carriage return, but must not be empty. -/
theorem linesList_intercalate {lines : List (List Char)} (hlast : lines.getLast? ≠ some [])
    (hfeed : ∀ line ∈ lines, '\n' ∉ line)
    (hend : ∀ line ∈ lines.dropLast, line.getLast? ≠ some '\r') :
    linesList (['\n'].intercalate lines) = lines := by
  induction lines with
  | nil => rfl
  | cons line rest ih =>
    obtain ⟨hline, hrest⟩ := List.forall_mem_cons.mp hfeed
    cases rest with
    | nil =>
      rw [List.intercalate_singleton]
      exact linesList_of_not_mem (fun h0 => hlast (by rw [h0]; rfl)) hline
    | cons next rest =>
      rw [List.dropLast_cons_cons, List.forall_mem_cons] at hend
      rw [List.intercalate_cons_cons, List.append_assoc, List.singleton_append,
        linesList_append_lineFeed ⟨hline, hend.1⟩,
        ih (by rwa [List.getLast?_cons_cons] at hlast) hrest hend.2]

/-! ## Carriage returns -/

theorem linesList_eq_nil_iff {cs : List Char} : linesList cs = [] ↔ cs = [] := by
  constructor
  · intro h
    unfold linesList at h
    split at h
    · rfl
    · exact absurd h (by simp)
    · exact absurd h (by simp)
    · rename_i c rest _ _
      cases hrest : linesList rest <;> simp [hrest, consFirst] at h
  · rintro rfl
    rfl

/-- A text whose first line is empty starts with the end of this line. -/
theorem exists_of_linesList_eq_nil_cons {cs : List Char} {others : List (List Char)}
    (h : linesList cs = [] :: others) :
    ∃ rest, cs = '\n' :: rest ∨ cs = '\r' :: '\n' :: rest := by
  unfold linesList at h
  split at h
  · exact absurd h (by simp)
  · rename_i rest
    exact ⟨rest, Or.inr rfl⟩
  · rename_i rest
    exact ⟨rest, Or.inl rfl⟩
  · rename_i c rest _ _
    cases hrest : linesList rest <;> simp [hrest, consFirst] at h

/-- A line that ends in a carriage return has lost a second one to its line end, or it is the last
line and no line end follows. -/
theorem carriageReturn_of_linesList {cs line : List Char} {before after : List (List Char)}
    (hsplit : linesList cs = before ++ line :: after) (hend : line.getLast? = some '\r') :
    ['\r', '\r', '\n'] <:+: cs ∨ after = [] ∧ cs.getLast? = some '\r' := by
  -- What is found in the rest of the text is found in the text.
  have hcons : ∀ {c : Char} {rest : List Char},
      (['\r', '\r', '\n'] <:+: rest ∨ after = [] ∧ rest.getLast? = some '\r') →
        (['\r', '\r', '\n'] <:+: c :: rest ∨ after = [] ∧ (c :: rest).getLast? = some '\r') := by
    rintro c rest (hinner | ⟨hafter, hlast⟩)
    · exact Or.inl (List.infix_cons hinner)
    · exact Or.inr ⟨hafter, by rw [List.getLast?_cons, hlast, Option.getD_some]⟩
  fun_induction linesList cs generalizing before line with
  | case1 => exact absurd hsplit (by simp)
  | case2 rest ih =>
    cases before with
    | nil =>
      obtain ⟨rfl, -⟩ := List.cons.inj hsplit
      exact absurd hend (by simp)
    | cons b before => exact hcons (hcons (ih (List.cons.inj hsplit).2 hend))
  | case3 rest ih =>
    cases before with
    | nil =>
      obtain ⟨rfl, -⟩ := List.cons.inj hsplit
      exact absurd hend (by simp)
    | cons b before => exact hcons (ih (List.cons.inj hsplit).2 hend)
  | case4 c rest hreturn _ ih =>
    cases hrest : linesList rest with
    | nil =>
      obtain rfl := linesList_eq_nil_iff.mp hrest
      rw [hrest, consFirst, List.singleton_eq_append_iff] at hsplit
      rcases hsplit with ⟨rfl, hline⟩ | ⟨-, hline⟩
      · obtain ⟨rfl, rfl⟩ := List.cons.inj hline
        exact Or.inr ⟨rfl, hend⟩
      · exact absurd hline (by simp)
    | cons first others =>
      rw [hrest, consFirst] at hsplit
      cases before with
      | cons b before =>
        have hlater : linesList rest = (first :: before) ++ line :: after := by
          rw [hrest, List.cons_append, (List.cons.inj hsplit).2]
          rfl
        exact hcons (ih hlater hend)
      | nil =>
        obtain ⟨rfl, rfl⟩ := List.cons.inj hsplit
        cases first with
        | cons d first =>
          rw [List.getLast?_cons_cons] at hend
          have hfirst : linesList rest = [] ++ (d :: first) :: others := hrest
          exact hcons (ih hfirst hend)
        | nil =>
          -- The line is a carriage return in front of a line end, so that line end has its own.
          obtain rfl : c = '\r' := by simpa using hend
          obtain ⟨rest', rfl | rfl⟩ := exists_of_linesList_eq_nil_cons hrest
          · exact (hreturn rest' rfl rfl).elim
          · exact Or.inl ⟨[], rest', rfl⟩

variable {cs : List Char}

/-- Before the last line no line ends in a carriage return. -/
theorem getLast?_ne_of_mem_dropLast (h : ¬ ['\r', '\r', '\n'] <:+: cs) {line : List Char}
    (hline : line ∈ (linesList cs).dropLast) : line.getLast? ≠ some '\r' := by
  intro hend
  obtain ⟨before, after, hsplit⟩ := List.append_of_mem hline
  have hne : linesList cs ≠ [] := fun h0 => by simp [h0] at hline
  have hlines : linesList cs = before ++ line :: (after ++ [(linesList cs).getLast hne]) := by
    rw [← List.cons_append, ← List.append_assoc, ← hsplit, List.dropLast_append_getLast]
  rcases carriageReturn_of_linesList hlines hend with hinner | ⟨hafter, -⟩
  · exact h hinner
  · exact absurd hafter (by simp)

theorem isWholeLine_of_mem (h : ¬ ['\r', '\r', '\n'] <:+: cs) (hlast : cs.getLast? ≠ some '\r')
    {line : List Char} (hline : line ∈ linesList cs) : IsWholeLine line := by
  refine ⟨lineFeed_not_mem_linesList cs line hline, fun hend => ?_⟩
  obtain ⟨before, after, hsplit⟩ := List.append_of_mem hline
  rcases carriageReturn_of_linesList hsplit hend with hinner | ⟨-, hreturn⟩
  · exact h hinner
  · exact hlast hreturn

/-! ## White space put in front of lines -/

/-- A line behind some white space; a blank line becomes empty. -/
def reindent (start line : List Char) : List Char := if allBlank line then [] else start ++ line

variable {start : List Char} {lines : List (List Char)}

theorem allBlank_reindent (hstart : allBlank start = true) (line : List Char) :
    allBlank (reindent start line) = allBlank line := by
  unfold reindent
  split
  · rename_i h
    rw [h]
    rfl
  · rw [allBlank_append, hstart, Bool.true_and]

theorem trimLines_map {f : List Char → List Char} (hf : ∀ line, allBlank (f line) = allBlank line) :
    trimLines (lines.map f) = (trimLines lines).map f := by
  have hcomp : allBlank ∘ f = allBlank := funext hf
  rw [trimLines, trimLines, List.dropWhile_map, ← List.map_reverse, List.dropWhile_map,
    ← List.map_reverse, hcomp]

theorem visibleLines_map_reindent (hstart : allBlank start = true) :
    visibleLines (lines.map (reindent start)) = (visibleLines lines).map (start ++ ·) := by
  have hcomp : (fun line => !allBlank line) ∘ reindent start = fun line => !allBlank line :=
    funext fun line => by rw [Function.comp_apply, allBlank_reindent hstart]
  rw [visibleLines, List.filter_map, hcomp]
  refine List.map_congr_left fun line hline => ?_
  rw [reindent, (mem_visibleLines.mp hline).2]
  rfl

theorem leadingBlanks_append (hstart : allBlank start = true) (line : List Char) :
    leadingBlanks (start ++ line) = start ++ leadingBlanks line :=
  List.takeWhile_append_of_pos (List.all_eq_true.mp hstart)

theorem sharedStart_append (start a b : List Char) :
    sharedStart (start ++ a) (start ++ b) = start ++ sharedStart a b := by
  induction start with
  | nil => rfl
  | cons c start ih => rw [List.cons_append, List.cons_append, sharedStart, if_pos rfl, ih]; rfl

theorem sharedIndent_map_append (hstart : allBlank start = true) (hne : lines ≠ []) :
    sharedIndent (lines.map (start ++ ·)) = start ++ sharedIndent lines := by
  fun_induction sharedIndent lines with
  | case1 => exact absurd rfl hne
  | case2 line => exact leadingBlanks_append hstart line
  | case3 line rest hrest ih =>
    have hrest' : rest ≠ [] := fun h0 => hrest h0
    rw [List.map_cons, sharedIndent, ih hrest', leadingBlanks_append hstart, sharedStart_append]
    simpa using hrest'

/-- A line less the white space that it shares with others; a blank line becomes empty. -/
def stripLine (indent line : List Char) : List Char :=
  if allBlank line then [] else line.drop indent.length

theorem dedentLines_eq (lines : List (List Char)) :
    dedentLines lines =
      (trimLines lines).map (stripLine (sharedIndent (visibleLines (trimLines lines)))) := rfl

theorem stripLine_suffix (indent line : List Char) : stripLine indent line <:+ line := by
  unfold stripLine
  split
  · exact List.nil_suffix
  · exact List.drop_suffix _ _

theorem allBlank_sharedIndent (lines : List (List Char)) :
    allBlank (sharedIndent lines) = true := by
  cases lines with
  | nil => rfl
  | cons line rest =>
    have hstart : sharedIndent (line :: rest) <+: leadingBlanks line :=
      (prefix_sharedIndent_iff (List.cons_ne_nil line rest)).mp List.prefix_rfl line
        List.mem_cons_self
    exact List.all_eq_true.mpr fun c hc => List.mem_takeWhile_imp (hstart.subset hc)

/-- White space in front of every line that is not blank is taken off again, with the white space
that the lines share behind it. -/
theorem dedentLines_map_reindent (hstart : allBlank start = true) (lines : List (List Char)) :
    dedentLines (lines.map (reindent start)) = dedentLines lines := by
  rw [dedentLines_eq, dedentLines_eq, trimLines_map (allBlank_reindent hstart),
    visibleLines_map_reindent hstart, List.map_map]
  refine List.map_congr_left fun line hline => ?_
  rw [Function.comp_apply, stripLine, stripLine, allBlank_reindent hstart]
  cases hblank : allBlank line with
  | true => rfl
  | false =>
    have hne : visibleLines (trimLines lines) ≠ [] :=
      List.ne_nil_of_mem (mem_visibleLines.mpr ⟨hline, hblank⟩)
    rw [sharedIndent_map_append hstart hne, reindent, hblank, List.length_append]
    exact List.drop_length_add_append _

/-! ## Dedented lines -/

/-- Lines that neither start nor end with a blank one are all kept. -/
theorem IsVisiblePart.trimLines_eq {body : List (List Char)} (h : IsVisiblePart lines body) :
    trimLines body = body := by
  obtain ⟨first, hfirst, hfirst'⟩ := h.first
  obtain ⟨last, hlast, hlast'⟩ := h.last
  have hstart : body.dropWhile allBlank = body := by
    obtain ⟨rest, rfl⟩ := List.head?_eq_some_iff.mp hfirst
    exact List.dropWhile_cons_of_neg (by rw [hfirst']; exact Bool.false_ne_true)
  rw [Text.trimLines_eq, hstart, List.rdropWhile_eq_self_iff]
  intro hne
  rw [Option.some.inj ((List.getLast?_eq_some_getLast hne).symm.trans hlast), hlast']
  exact Bool.false_ne_true

/-- Either all lines are blank, and none is kept, or the lines kept are the visible part. -/
theorem trimLines_cases (lines : List (List Char)) :
    trimLines lines = [] ∨ IsVisiblePart lines (trimLines lines) := by
  by_cases h : ∃ line ∈ lines, allBlank line = false
  · exact Or.inr (isVisiblePart_trimLines h)
  · refine Or.inl (trimLines_eq_nil_iff.mpr fun line hline => ?_)
    simpa using fun hvisible => h ⟨line, hline, hvisible⟩

theorem dedentLines_trimLines (lines : List (List Char)) :
    dedentLines (trimLines lines) = dedentLines lines := by
  rcases trimLines_cases lines with hnil | hpart
  · rw [dedentLines_eq lines, hnil]
    rfl
  · rw [dedentLines_eq, hpart.trimLines_eq, dedentLines_eq]

/-- A line that is not blank is the white space taken off it and what is left of it, and this is
not blank either. -/
theorem append_stripLine {line : List Char} (hline : line ∈ lines)
    (hvisible : allBlank line = false) :
    sharedIndent (visibleLines lines) ++ stripLine (sharedIndent (visibleLines lines)) line = line ∧
      allBlank (stripLine (sharedIndent (visibleLines lines)) line) = false := by
  have hback : sharedIndent (visibleLines lines) ++
      stripLine (sharedIndent (visibleLines lines)) line = line := by
    rw [stripLine, hvisible]
    exact (isSharedIndent_sharedIndent ⟨line, hline, hvisible⟩).append_drop hline hvisible
  refine ⟨hback, ?_⟩
  rwa [← hback, allBlank_append, allBlank_sharedIndent, Bool.true_and] at hvisible

/-- Dedented lines, put back behind the white space that they have lost, are the lines that they
come from. -/
theorem map_reindent_dedentLines (lines : List (List Char)) :
    (dedentLines lines).map (reindent (sharedIndent (visibleLines (trimLines lines)))) =
      (trimLines lines).map (reindent []) := by
  rw [dedentLines_eq, List.map_map]
  refine List.map_congr_left fun line hline => ?_
  rw [Function.comp_apply]
  cases hblank : allBlank line with
  | true => rw [stripLine, reindent, reindent, hblank]; rfl
  | false =>
    obtain ⟨hback, hvisible⟩ := append_stripLine hline hblank
    rw [reindent, reindent, hvisible, hback, hblank]
    rfl

theorem dedentLines_dedentLines (lines : List (List Char)) :
    dedentLines (dedentLines lines) = dedentLines lines := by
  rw [← dedentLines_map_reindent (allBlank_sharedIndent _) (dedentLines lines),
    map_reindent_dedentLines, dedentLines_map_reindent rfl, dedentLines_trimLines]

/-- The last dedented line is not empty. -/
theorem getLast?_dedentLines_ne (lines : List (List Char)) :
    (dedentLines lines).getLast? ≠ some [] := by
  rw [dedentLines_eq, List.getLast?_map]
  rcases trimLines_cases lines with hnil | hpart
  · rw [hnil]
    simp
  · obtain ⟨last, hlast, hvisible⟩ := hpart.last
    have hrest := (append_stripLine (List.mem_of_getLast? hlast) hvisible).2
    rw [hlast, Option.map_some]
    intro hnil
    rw [Option.some.inj hnil] at hrest
    exact absurd hrest (by simp [allBlank])

theorem trimLines_subset (lines : List (List Char)) : trimLines lines ⊆ lines := by
  rcases trimLines_cases lines with hnil | hpart
  · rw [hnil]
    exact List.nil_subset _
  · exact hpart.subset

/-- Before the last of the lines kept there are lines before the last one only. -/
theorem dropLast_trimLines_subset (lines : List (List Char)) :
    (trimLines lines).dropLast ⊆ lines.dropLast := by
  rcases trimLines_cases lines with hnil | hpart
  · rw [hnil]
    exact List.nil_subset _
  · obtain ⟨before, after, hsplit, -⟩ := hpart.split
    obtain ⟨last, hlast, -⟩ := hpart.last
    have hbody : trimLines lines = (trimLines lines).dropLast ++ [last] :=
      (List.dropLast_append_getLast? last hlast).symm
    have hlines : lines = before ++ (trimLines lines).dropLast ++ last :: after := by
      rw [List.append_assoc, ← List.singleton_append, ← List.append_assoc _ [last], ← hbody,
        ← List.append_assoc]
      exact hsplit
    rw [hlines, List.dropLast_append_cons, ← hlines]
    exact fun line hline => List.mem_append_left _ (List.mem_append_right _ hline)

/-! ## Dedented text -/

variable {text : String}

theorem toList_dedent (text : String) :
    (dedent text).toList = ['\n'].intercalate (dedentLines (linesList text.toList)) := by
  rw [dedent, String.toList_intercalate, List.map_map]
  congr 1
  exact List.map_id'' (fun _ => String.toList_ofList) _

/-- The lines of a dedented text are the dedented lines of the text. -/
theorem linesList_dedent (h : ¬ ['\r', '\r', '\n'] <:+: text.toList) :
    linesList (dedent text).toList = dedentLines (linesList text.toList) := by
  rw [toList_dedent]
  refine linesList_intercalate (getLast?_dedentLines_ne _) ?_ ?_
  · intro line hline
    obtain ⟨source, hsource, rfl⟩ := List.mem_map.mp hline
    have hmem := lineFeed_not_mem_linesList text.toList source (trimLines_subset _ hsource)
    exact fun hfeed => hmem ((stripLine_suffix _ _).subset hfeed)
  · intro line hline
    rw [dedentLines_eq, ← List.map_dropLast] at hline
    obtain ⟨source, hsource, rfl⟩ := List.mem_map.mp hline
    have hend := getLast?_ne_of_mem_dropLast h (dropLast_trimLines_subset _ hsource)
    obtain ⟨lost, hlost⟩ := stripLine_suffix
      (sharedIndent (visibleLines (trimLines (linesList text.toList)))) source
    intro hreturn
    rw [← hlost, List.getLast?_append, hreturn] at hend
    exact hend rfl

theorem dedent_eq_of_linesList {other : String}
    (h : dedentLines (linesList other.toList) = dedentLines (linesList text.toList)) :
    dedent other = dedent text := by
  rw [dedent, dedent, h]

theorem dedent_dedent (h : ¬ ['\r', '\r', '\n'] <:+: text.toList) :
    dedent (dedent text) = dedent text :=
  dedent_eq_of_linesList (by rw [linesList_dedent h, dedentLines_dedentLines])

/-! ## Indented text -/

theorem isWholeLine_spaces (n : Nat) : IsWholeLine (List.replicate n ' ') := by
  have hspace : ∀ c ∈ List.replicate n ' ', c = ' ' := fun c hc => List.eq_of_mem_replicate hc
  exact ⟨fun hfeed => absurd (hspace _ hfeed) (by decide),
    fun hend => absurd (hspace _ (List.mem_of_getLast? hend)) (by decide)⟩

theorem IsWholeLine.reindent {line : List Char} (h : IsWholeLine line)
    (hstart : IsWholeLine start) : IsWholeLine (reindent start line) := by
  unfold Text.reindent
  split
  · exact ⟨List.not_mem_nil, by simp⟩
  · refine ⟨fun hfeed => (List.mem_append.mp hfeed).elim hstart.1 h.1, fun hend => ?_⟩
    rw [List.getLast?_append, Option.or_eq_some_iff] at hend
    rcases hend with hend | ⟨-, hend⟩
    · exact h.2 hend
    · exact hstart.2 hend

/-- A line of code is indented to its level, unless it is blank. -/
theorem toList_render_ofText (levels width : Nat) (line : List Char) :
    (CodeLine.render width ⟨levels, (CodeLine.ofText (String.ofList line)).text⟩).toList =
      reindent (List.replicate (levels * width) ' ') line ++ ['\n'] := by
  unfold CodeLine.render CodeLine.ofText reindent
  simp only [String.toList_ofList]
  cases hblank : allBlank line with
  | true => simp
  | false =>
    have hne : line ≠ [] := fun h0 => by simp [h0, allBlank] at hblank
    simp [hne]

theorem toList_render_nest_ofText (levels width : Nat) (text : String) :
    (Code.render width (Code.nest levels (Code.ofText text))).toList =
      ((linesList text.toList).map (reindent (List.replicate (levels * width) ' '))).flatMap
        (· ++ ['\n']) := by
  rw [Code.render, Code.nest, Code.ofText, lines, String.toList_join, List.flatMap_map,
    List.flatMap_map, List.flatMap_map, List.flatMap_map, List.flatMap_map]
  refine List.flatMap_congr fun line _ => ?_
  rw [← toList_render_ofText]
  simp [CodeLine.ofText]

/-- The lines of what a builder makes of a text are those of the text, indented. -/
theorem linesList_render_line (h : ¬ ['\r', '\r', '\n'] <:+: text.toList)
    (hlast : text.toList.getLast? ≠ some '\r') (width : Nat) {b : CodeBuilder}
    (hb : b.lines = []) :
    linesList ((b.line text).render width).toList =
      (linesList text.toList).map (reindent (List.replicate (b.level * width) ' ')) := by
  rw [CodeBuilder.line, CodeBuilder.render_write, CodeBuilder.render, hb, Code.render_nil,
    String.empty_append, toList_render_nest_ofText]
  refine linesList_flatMap_lineFeed fun line hline => ?_
  obtain ⟨source, hsource, rfl⟩ := List.mem_map.mp hline
  exact (isWholeLine_of_mem h hlast hsource).reindent (isWholeLine_spaces _)

/-- **Dedented text is a normal form.** In a text without two carriage returns before a line feed,
dedenting twice is dedenting once. When the text does not end in a carriage return either, what a
builder without lines makes of it, at any level and for any width of a level, dedents to what the
text does: nothing is lost in between but indentation and the white space of blank lines. -/
theorem dedent_normal_form (text : String) (h : ¬ ['\r', '\r', '\n'] <:+: text.toList) :
    dedent (dedent text) = dedent text ∧
      (text.toList.getLast? ≠ some '\r' → ∀ (width : Nat) (b : CodeBuilder), b.lines = [] →
        dedent ((b.line text).render width) = dedent text) := by
  refine ⟨dedent_dedent h, fun hlast width b hb => dedent_eq_of_linesList ?_⟩
  rw [linesList_render_line h hlast width hb]
  exact dedentLines_map_reindent (by simp [allBlank, isBlank]) _

-- A carriage return is lost each time that a line feed is taken off or written behind it.
example : dedent "a\r\r\nb" = "a\r\nb" ∧ dedent "a\r\nb" = "a\nb" ∧ dedent "a\r" = "a\r" ∧
    dedent ((({} : CodeBuilder).line "a\r").render 4) = "a" := by decide

/-- Wide blanks, both kinds of line ends, a blank line with white space of its own, and a carriage
return inside of a line. -/
def mixedLines : String := "\n\u00a0\u3000x = 1\r\n \t\n\u00a0 y = 2\r z\n \r\n"

theorem dedent_normal_form_mixedLines :
    ¬ ['\r', '\r', '\n'] <:+: mixedLines.toList ∧ mixedLines.toList.getLast? ≠ some '\r' ∧
      dedent (dedent mixedLines) = "\u3000x = 1\n\n y = 2\r z" ∧
      dedent ((({} : CodeBuilder).indent.indent.line mixedLines).render 4) =
        "\u3000x = 1\n\n y = 2\r z" := by
  have hinner : ¬ ['\r', '\r', '\n'] <:+: mixedLines.toList := by
    simp [mixedLines, List.infix_cons_iff, List.cons_prefix_cons]
  have hlast : mixedLines.toList.getLast? ≠ some '\r' := by decide
  have hdedent : dedent mixedLines = "\u3000x = 1\n\n y = 2\r z" := by rfl
  obtain ⟨htwice, hline⟩ := dedent_normal_form mixedLines hinner
  exact ⟨hinner, hlast, htwice.trans hdedent, (hline hlast 4 _ rfl).trans hdedent⟩

end ReactorSynth.Text
