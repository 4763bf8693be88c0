import ReactorSynth.Proofs.ClassSearch
import ReactorSynth.Proofs.ClassText
import ReactorSynth.Proofs.Interruption

/-!
# Lines of generated source

Generated source is code rendered line by line, so the lines between its line feeds are the lines
of the code (`splitLines_render`), as long as none of these is broken by a line feed of its own
(`Code.Unbroken`). User text never breaks one, because code takes a text line by line.

In a Python class only the header stands at level zero. So the lines that are neither empty nor
indented (`outerLines`) are those of the headers:

* `map_rendered_classCode`: a class is its header, and behind it lines that are empty or indented.
* **`outerLines_expandClasses`**: the outer lines of a source are the headers of its classes in
  order, whatever texts the reactors hold, and the classes can be read back from them.
-/

namespace ReactorSynth

/-! ## Lines of a text -/

/-- The pieces of a text between its line feeds. -/
def splitLines (source : String) : List String := (source.toList.splitOn '\n').map String.ofList

/-- Whether a line is empty or starts with a space. -/
def isInner (line : String) : Bool := line.toList.head?.all (· == ' ')

/-- The lines of a text that are neither empty nor start with a space. -/
def outerLines (source : String) : List String :=
  (splitLines source).filter fun line => !isInner line

namespace Text

/-- A text without line feeds is one line, unless it is empty. -/
theorem linesList_of_not_mem {cs : List Char} (hne : cs ≠ []) (h : '\n' ∉ cs) :
    linesList cs = [cs] := by
  fun_induction linesList cs with
  | case1 => exact absurd rfl hne
  | case2 rest ih => simp at h
  | case3 rest ih => simp at h
  | case4 c rest _ hc ih =>
    cases rest with
    | nil => rfl
    | cons d rest =>
      rw [ih (by simp) (fun hmem => h (List.mem_cons_of_mem c hmem))]
      rfl

end Text

/-! ## Lines of rendered code -/

namespace CodeLine

/-- A rendered line without its line feed. -/
def rendered (width : Nat) (line : CodeLine) : String :=
  if line.text.isEmpty then ""
  else String.ofList (List.replicate (line.level * width) ' ') ++ line.text

theorem render_eq (width : Nat) (line : CodeLine) :
    line.render width = line.rendered width ++ "\n" := by
  unfold render rendered
  split <;> rfl

theorem rendered_zero (width : Nat) (text : String) : rendered width ⟨0, text⟩ = text := by
  unfold rendered
  split
  · rename_i h
    exact (String.isEmpty_iff.mp h).symm
  · simp

/-- A line below level zero is empty or indented. -/
theorem isInner_rendered {width : Nat} (hwidth : 1 ≤ width) {line : CodeLine}
    (h : line.text = "" ∨ 1 ≤ line.level) : isInner (line.rendered width) = true := by
  unfold rendered
  split
  · rfl
  · rename_i htext
    have hlevel : 1 ≤ line.level := h.resolve_left fun h0 => htext (by rw [h0]; rfl)
    obtain ⟨n, hn⟩ : ∃ n, line.level * width = n + 1 :=
      ⟨line.level * width - 1, by have := Nat.mul_pos hlevel hwidth; omega⟩
    simp [isInner, hn, List.replicate_succ]

end CodeLine

namespace Code

/-- No line of the code contains a line feed. -/
def Unbroken (code : Code) : Prop := ∀ line ∈ code, '\n' ∉ line.text.toList

variable {a b code : Code}

@[simp] theorem unbroken_nil : Unbroken [] := by simp [Unbroken]

@[simp] theorem unbroken_blank : Unbroken blank := by simp [Unbroken, blank]

@[simp] theorem unbroken_append : Unbroken (a ++ b) ↔ a.Unbroken ∧ b.Unbroken :=
  List.forall_mem_append

@[simp] theorem unbroken_nest {levels : Nat} : Unbroken (nest levels code) ↔ code.Unbroken := by
  simp [Unbroken, nest]

@[simp] theorem unbroken_flatMap {α : Type} {f : α → Code} {l : List α} :
    Unbroken (l.flatMap f) ↔ ∀ x ∈ l, (f x).Unbroken := by
  simp only [Unbroken, List.forall_mem_flatMap]

/-- Code takes a text line by line. -/
@[simp] theorem unbroken_ofText (text : String) : Unbroken (ofText text) := by
  intro line hline
  obtain ⟨s, hs, rfl⟩ := List.mem_map.mp hline
  obtain ⟨cs, hcs, rfl⟩ := List.mem_map.mp hs
  unfold CodeLine.ofText
  split
  · simp
  · simpa using Text.lineFeed_not_mem_linesList _ cs hcs

/-- The lines of a text are those of the code that it renders, and the empty line at its end. -/
theorem splitLines_render {code : Code} (h : code.Unbroken) (width : Nat) :
    splitLines (code.render width) = code.map (CodeLine.rendered width) ++ [""] := by
  induction code with
  | nil => rfl
  | cons line rest ih =>
    obtain ⟨hline, hrest⟩ := List.forall_mem_cons.mp h
    have hpiece : '\n' ∉ (line.rendered width).toList := by
      unfold CodeLine.rendered
      split
      · simp
      · simp [hline]
    have hcons : (render width (line :: rest)).toList =
        (line.rendered width).toList ++ '\n' :: (render width rest).toList := by
      rw [render, List.map_cons, CodeLine.render_eq]
      simp [render]
    have hsplit : (render width (line :: rest)).toList.splitOn '\n' =
        (line.rendered width).toList :: (render width rest).toList.splitOn '\n' := by
      rw [hcons]
      exact List.splitOnP_append_cons_of_forall_mem
        (fun c hc => by simpa using fun heq : c = '\n' => hpiece (heq ▸ hc)) '\n' (by simp) _
    rw [splitLines, hsplit, List.map_cons, List.map_cons, List.cons_append, ← ih hrest]
    simp [splitLines]

/-- A text with a character to be seen and no line feed is one line of code. -/
theorem ofText_of_not_mem {text : String} (hblank : Text.allBlank text.toList = false)
    (hfeed : '\n' ∉ text.toList) : ofText text = [⟨0, text⟩] := by
  have hne : text.toList ≠ [] := fun h0 => by simp [h0, Text.allBlank] at hblank
  rw [ofText, Text.lines, Text.linesList_of_not_mem hne hfeed]
  simp [CodeLine.ofText, hblank]

end Code

/-! ## Lines of a Python class -/

namespace PythonClass

variable {ctx : ClassContext}

/-- The lines of the header of the class of a name. -/
def headerLines (options : Options) (name : String) : List String :=
  if options.classComments then ["# Python class for reactor " ++ name, "class _" ++ name ++ ":"]
  else ["class _" ++ name ++ ":"]

theorem headerCode_eq (h : '\n' ∉ ctx.reactor.name.toList) :
    headerCode ctx = (headerLines ctx.options ctx.reactor.name).map fun line => ⟨0, line⟩ := by
  have hcomment : Code.ofText ("# Python class for reactor " ++ ctx.reactor.name) =
      [⟨0, "# Python class for reactor " ++ ctx.reactor.name⟩] :=
    Code.ofText_of_not_mem (by simp [Text.allBlank, Text.isBlank]) (by simp [h])
  have hopening : Code.ofText ("class _" ++ ctx.reactor.name ++ ":") =
      [⟨0, "class _" ++ ctx.reactor.name ++ ":"⟩] :=
    Code.ofText_of_not_mem (by simp [Text.allBlank, Text.isBlank]) (by simp [h])
  rw [headerCode, hcomment, hopening, headerLines]
  split <;> rfl

theorem unbroken_commented {α : Type} {comment : String} {code : α → Code}
    {declarations : List α} (h : ∀ a ∈ declarations, (code a).Unbroken) :
    (commented comment code declarations).Unbroken := by
  unfold commented
  split
  · exact Code.unbroken_nil
  · simpa using h

theorem unbroken_constructorCode (r : Reactor) : (constructorCode r).Unbroken := by
  simp only [constructorCode, Code.unbroken_append, Code.unbroken_nest, Code.unbroken_ofText,
    true_and, and_true]
  exact ⟨unbroken_commented fun _ _ => Code.unbroken_ofText _,
    unbroken_commented fun _ _ => Code.unbroken_ofText _⟩

theorem unbroken_reactionCode {index : Nat} {reaction : Reaction} {code : Code}
    (h : reactionCode ctx index reaction = .ok code) : code.Unbroken := by
  obtain ⟨resolved, -, h⟩ := bind_eq_ok_iff.mp h
  obtain ⟨effects, -, h⟩ := bind_eq_ok_iff.mp h
  obtain rfl := Except.ok.inj h
  have hlabel : (labelCode reaction.label).Unbroken := by
    unfold labelCode
    split <;> simp
  have heffects : (effectsCode effects).Unbroken := by
    unfold effectsCode
    split <;> simp
  simp [hlabel, heffects]

theorem unbroken_methods (ctx : ClassContext) (reactions : List (Nat × Reaction)) :
    (methods ctx reactions).2.Unbroken := by
  induction reactions with
  | nil => exact Code.unbroken_nil
  | cons m rest ih =>
    rw [methods]
    cases hm : methodCode ctx m with
    | error e => exact Code.unbroken_blank
    | ok code => simp [unbroken_reactionCode hm, ih]

theorem unbroken_classCode {methods : Code} (h : methods.Unbroken) :
    (classCode ctx methods).Unbroken := by
  have hheader : (headerCode ctx).Unbroken := by
    unfold headerCode
    simp only
    split <;> simp
  simp [classCode, hheader, preambleCode, unbroken_constructorCode, gettersCode, getterCode, h]

/-- The code of a class behind its header. -/
def bodyCode (r : Reactor) (methods : Code) : Code :=
  Code.nest 1 (preambleCode r ++ constructorCode r ++ gettersCode r ++ methods) ++ Code.blank

theorem classCode_eq_append (ctx : ClassContext) (methods : Code) :
    classCode ctx methods = headerCode ctx ++ bodyCode ctx.reactor methods := by
  rw [classCode, bodyCode, List.append_assoc]

/-- Every line of the code is empty or stands below level zero. -/
def IsBody (code : Code) : Prop := ∀ line ∈ code, line.text = "" ∨ 1 ≤ line.level

theorem isBody_bodyCode (r : Reactor) (methods : Code) : IsBody (bodyCode r methods) := by
  intro line hline
  rcases List.mem_append.mp hline with hline | hline
  · obtain ⟨inner, -, rfl⟩ := List.mem_map.mp hline
    exact Or.inr (Nat.le_add_left 1 inner.level)
  · rw [List.mem_singleton.mp hline]
    exact Or.inl rfl

/-- A class is its header, and behind it lines that are empty or indented. -/
theorem map_rendered_classCode (hname : '\n' ∉ ctx.reactor.name.toList) {width : Nat}
    (hwidth : 1 ≤ width) (methods : Code) :
    ∃ body : List String, (∀ line ∈ body, isInner line = true) ∧
      (classCode ctx methods).map (CodeLine.rendered width) =
        headerLines ctx.options ctx.reactor.name ++ body := by
  refine ⟨(bodyCode ctx.reactor methods).map (CodeLine.rendered width), ?_, ?_⟩
  · intro line hline
    obtain ⟨l, hl, rfl⟩ := List.mem_map.mp hline
    exact CodeLine.isInner_rendered hwidth (isBody_bodyCode _ _ l hl)
  · rw [classCode_eq_append, headerCode_eq hname, List.map_append, List.map_map]
    congr 1
    have hzero : CodeLine.rendered width ∘ (fun line => ⟨0, line⟩) = id :=
      funext fun line => CodeLine.rendered_zero width line
    rw [hzero, List.map_id]

/-- A text is that of the class of a name: the lines of its header, and behind them lines that are
empty or indented. -/
def IsClassText (options : Options) (name text : String) : Prop :=
  ∃ (code : Code) (body : List String), code.Unbroken ∧ text = code.render options.indentWidth ∧
    (∀ line ∈ body, isInner line = true) ∧
    code.map (CodeLine.rendered options.indentWidth) = headerLines options name ++ body

theorem isClassText_of_classText (ctx : ClassContext) {reactions : List (Nat × Reaction)}
    {text : String} (hname : '\n' ∉ ctx.reactor.name.toList) (hwidth : 1 ≤ ctx.options.indentWidth)
    (h : emitter.classText ctx reactions = .ok text) :
    IsClassText ctx.options ctx.reactor.name text := by
  have hmethods := unbroken_methods ctx reactions
  obtain ⟨body, hbody, hlines⟩ :=
    map_rendered_classCode hname hwidth (methods ctx reactions).2
  refine ⟨_, body, unbroken_classCode hmethods, ?_, hbody, hlines⟩
  rw [classText_eq] at h
  cases hend : (methods ctx reactions).1 with
  | error e =>
    rw [hend] at h
    exact absurd h (by simp [Except.map])
  | ok _ =>
    rw [hend] at h
    exact (Except.ok.inj h).symm

/-! ## Lines of a source -/

/-- The lines of some classes, each a header with a body. -/
def classLines (options : Options) (names : List String) (bodies : List (List String)) :
    List String :=
  (names.zip bodies).flatMap fun (name, body) => headerLines options name ++ body

/-- The lines of the texts of some classes, one behind the other. -/
theorem splitLines_join {options : Options} {α : Type} {name text : α → String} {l : List α}
    (h : ∀ a ∈ l, IsClassText options (name a) (text a)) :
    ∃ bodies : List (List String), bodies.length = l.length ∧
      (∀ body ∈ bodies, ∀ line ∈ body, isInner line = true) ∧
      splitLines (String.join (l.map text)) = classLines options (l.map name) bodies ++ [""] := by
  -- The texts are rendered from one code, which the induction builds up.
  suffices ∃ (code : Code) (bodies : List (List String)), code.Unbroken ∧
      String.join (l.map text) = code.render options.indentWidth ∧ bodies.length = l.length ∧
      (∀ body ∈ bodies, ∀ line ∈ body, isInner line = true) ∧
      code.map (CodeLine.rendered options.indentWidth) =
        classLines options (l.map name) bodies by
    obtain ⟨code, bodies, hcode, hrender, hlength, hinner, hlines⟩ := this
    exact ⟨bodies, hlength, hinner, by rw [hrender, Code.splitLines_render hcode, hlines]⟩
  induction l with
  | nil => exact ⟨[], [], Code.unbroken_nil, rfl, rfl, by simp, rfl⟩
  | cons a rest ih =>
    obtain ⟨code, body, hcode, hrender, hinner, hlines⟩ := h a List.mem_cons_self
    obtain ⟨code', bodies, hcode', hrender', hlength, hinner', hlines'⟩ :=
      ih fun b hb => h b (List.mem_cons_of_mem a hb)
    refine ⟨code ++ code', body :: bodies, Code.unbroken_append.mpr ⟨hcode, hcode'⟩, ?_, ?_, ?_, ?_⟩
    · rw [List.map_cons, String.join_cons, hrender, hrender', Code.render_append]
    · rw [List.length_cons, List.length_cons, hlength]
    · exact List.forall_mem_cons.mpr ⟨hinner, hinner'⟩
    · rw [List.map_append, hlines, hlines']
      rfl

theorem isInner_of_mem_headerLines {options : Options} {name line : String}
    (h : line ∈ headerLines options name) : isInner line = false := by
  unfold headerLines at h
  split at h
  · obtain rfl | rfl : line = "# Python class for reactor " ++ name ∨
        line = "class _" ++ name ++ ":" := by simpa using h
    · simp [isInner]
    · simp [isInner]
  · rw [List.mem_singleton.mp h]
    simp [isInner]

/-- Of the lines of some classes only those of the headers are outer lines. -/
theorem filter_classLines {options : Options} {names : List String} {bodies : List (List String)}
    (hlength : bodies.length = names.length)
    (hinner : ∀ body ∈ bodies, ∀ line ∈ body, isInner line = true) :
    (classLines options names bodies).filter (fun line => !isInner line) =
      names.flatMap (headerLines options) := by
  induction names generalizing bodies with
  | nil => rfl
  | cons name names ih =>
    cases bodies with
    | nil => simp at hlength
    | cons body bodies =>
      obtain ⟨hbody, hbodies⟩ := List.forall_mem_cons.mp hinner
      have hcons : classLines options (name :: names) (body :: bodies) =
          headerLines options name ++ body ++ classLines options names bodies := rfl
      have hheader : (headerLines options name).filter (fun line => !isInner line) =
          headerLines options name := List.filter_eq_self.mpr fun line hline => by
        rw [isInner_of_mem_headerLines hline]
        rfl
      have hnone : body.filter (fun line => !isInner line) = [] :=
        List.filter_eq_nil_iff.mpr fun line hline => by simp [hbody line hline]
      rw [hcons, List.filter_append, List.filter_append, hheader, hnone, List.append_nil,
        ih (Nat.succ.inj hlength) hbodies, List.flatMap_cons]

/-- The name of the class that a line opens. -/
def openedClass? (line : String) : Option String :=
  match line.toList with
  | 'c' :: 'l' :: 'a' :: 's' :: 's' :: ' ' :: '_' :: rest => some (String.ofList rest.dropLast)
  | _ => none

/-- The names of the classes that the outer lines of a source open. -/
def readClassNames (source : String) : List String := (outerLines source).filterMap openedClass?

theorem filterMap_headerLines (options : Options) (name : String) :
    (headerLines options name).filterMap openedClass? = [name] := by
  have hcomment : openedClass? ("# Python class for reactor " ++ name) = none := by
    simp [openedClass?]
  have hopening : openedClass? ("class _" ++ name ++ ":") = some name := by
    simp [openedClass?]
  unfold headerLines
  split
  · simp [hcomment, hopening]
  · simp [hopening]

theorem filterMap_flatMap_headerLines (options : Options) (names : List String) :
    (names.flatMap (headerLines options)).filterMap openedClass? = names := by
  induction names with
  | nil => rfl
  | cons name names ih =>
    rw [List.flatMap_cons, List.filterMap_append, filterMap_headerLines, ih, List.singleton_append]

end PythonClass

namespace Expansion

open PythonClass

variable {x : Expansion}

/-- The source of an expansion is the texts of the classes of its emission, one behind the other. -/
theorem source_of_expandClasses {out : ExpandedClasses} (h : x.expandClasses = .ok out) :
    ∃ text : Instance → String,
      (∀ i ∈ x.emission {} x.tree.instances, x.textOf i = .ok (text i)) ∧
        out.source = String.join ((x.emission {} x.tree.instances).map text) := by
  have htext : ∀ i ∈ x.emission {} x.tree.instances,
      x.textOf i = .ok ((x.textOf i).toOption.getD "") := by
    intro i hi
    cases hi' : x.textOf i with
    | ok text => rfl
    | error e =>
      -- Then some class of the emission would be the first to fail.
      obtain ⟨before, j, e', hfails⟩ := exists_failsAt_iff.mpr ⟨i, hi, e, hi'⟩
      rw [expandClasses_eq_error_iff.mpr ⟨before, j, hfails⟩] at h
      simp at h
  refine ⟨fun i => (x.textOf i).toOption.getD "", htext, ?_⟩
  rw [expandClasses_eq, writeEach_of_ok htext] at h
  exact (congrArg ExpandedClasses.source (Except.ok.inj h)).symm

theorem isClassText_of_textOf (hx : x.emitter = PythonClass.emitter)
    (hwidth : 1 ≤ x.options.indentWidth)
    (hnames : ∀ r ∈ x.program.reactors, '\n' ∉ r.name.toList) {i : Instance} {text : String}
    (hmay : x.mayWrite i = true) (h : x.textOf i = .ok text) :
    IsClassText x.options (x.className i) text := by
  unfold mayWrite at hmay
  unfold textOf classText at h
  cases hr : x.program.reactor? i.reactor with
  | none =>
    rw [hr] at hmay
    exact absurd hmay (by simp)
  | some r =>
    have hname : x.className i = r.name := by rw [className, Program.className, hr]
    rw [hr, hx] at h
    rw [hname]
    exact isClassText_of_classText ⟨x.program, i.reactor, r, x.options⟩
      (hnames r (List.mem_of_getElem? hr)) hwidth h

/-- If no reactor name contains a line feed and levels are indented at all, the lines of a source of
Python classes are, class by class, the lines of its header and then lines that are empty or start
with a space. So the outer lines are the headers alone, and the names of the classes can be read
from them. -/
theorem outerLines_expandClasses (hx : x.emitter = PythonClass.emitter)
    (hwidth : 1 ≤ x.options.indentWidth)
    (hnames : ∀ r ∈ x.program.reactors, '\n' ∉ r.name.toList) {out : ExpandedClasses}
    (hout : x.expandClasses = .ok out) :
    (∃ bodies : List (List String), bodies.length = out.classNames.length ∧
      (∀ body ∈ bodies, ∀ line ∈ body, isInner line = true) ∧
      splitLines out.source = classLines x.options out.classNames bodies ++ [""]) ∧
    outerLines out.source = out.classNames.flatMap (headerLines x.options) ∧
    readClassNames out.source = out.classNames := by
  obtain ⟨text, htext, hsource⟩ := source_of_expandClasses hout
  have hclass : ∀ i ∈ x.emission {} x.tree.instances,
      IsClassText x.options (x.className i) (text i) := fun i hi =>
    isClassText_of_textOf hx hwidth hnames
      (List.mem_filter.mp ((firstOfEach_sublist _ _ _).subset hi)).2 (htext i hi)
  obtain ⟨bodies, hlength, hinner, hlines⟩ := splitLines_join hclass
  rw [← hsource, ← classNames_of_expandClasses hout] at hlines
  have hlength : bodies.length = out.classNames.length := by
    rw [hlength, classNames_of_expandClasses hout, List.length_map]
  have houter : outerLines out.source = out.classNames.flatMap (headerLines x.options) := by
    rw [outerLines, hlines, List.filter_append, filter_classLines hlength hinner]
    simp [isInner]
  refine ⟨⟨bodies, hlength, hinner, hlines⟩, houter, ?_⟩
  rw [readClassNames, houter, filterMap_flatMap_headerLines]

/-- Two reactors whose texts pass for classes: a preamble and a label of several lines, and a body
behind blanks of different widths. -/
def borrowedHeaders : Expansion where
  program :=
    { reactors :=
        [{ name := "Leaf"
           preambles := ["class _Spare:\r\n\tpass\n\n# Python class for reactor Spare"]
           stateVars := [{ name := "kind", init := [.literal "0\nclass _Kind:"] }] },
         { name := "Main"
           reactions :=
             [{ code := "\n\u00a0\u00a0class _Late:\n\u00a0 pass\n"
                label := some "start\nclass _Label:" }]
           instantiations := [{ name := "leaf", reactorClass := "Leaf" }] }] }
  tree := .ofSites ⟨Text.lowercase "Main", 1, none⟩ (.cons ⟨"leaf", 0, none⟩ .nil .nil)
  federate := FederateLayout.unfederated.toFederate
  emitter := PythonClass.emitter
  options := { indentWidth := 1 }

theorem outerLines_expandClasses_borrowedHeaders :
    borrowedHeaders.program.elaborateFrom 1 = .ok borrowedHeaders.tree ∧
      1 ≤ borrowedHeaders.options.indentWidth ∧
      (∀ r ∈ borrowedHeaders.program.reactors, '\n' ∉ r.name.toList) ∧
      ∃ out, borrowedHeaders.expandClasses = .ok out ∧
        outerLines out.source =
          ["# Python class for reactor Main", "class _Main:",
           "# Python class for reactor Leaf", "class _Leaf:"] ∧
        readClassNames out.source = ["Main", "Leaf"] := by
  have hwidth : 1 ≤ borrowedHeaders.options.indentWidth := by decide
  have hnames : ∀ r ∈ borrowedHeaders.program.reactors, '\n' ∉ r.name.toList := by decide
  obtain ⟨out, hout, hclasses⟩ : ∃ out, borrowedHeaders.expandClasses = .ok out ∧
      out.classNames = ["Main", "Leaf"] := ⟨_, rfl, rfl⟩
  obtain ⟨-, houter, hread⟩ := outerLines_expandClasses rfl hwidth hnames hout
  refine ⟨by rfl, hwidth, hnames, out, hout, ?_, ?_⟩
  · rw [houter, hclasses]
    decide
  · rw [hread, hclasses]

end Expansion

end ReactorSynth
