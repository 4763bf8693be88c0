import ReactorSynth.Proofs.FederateIndependence

/-!
# What the options bear on

Of the options only the delay marker has a say in which classes are written. The other two choose
how these look: the width of a level of indentation, and whether a comment stands above each class.

* `classCode_eq_withComments`: a class is one code (`commentedClass`), rendered with or without the
  comment above it.
* `textOf_toPython_eq`: so the text of a class is rendered from code that the options have no say in.
* **`expandClasses_layout`**: for every program, tree, federate and delay marker there is one error,
  or one list of names and one code, that all options with this marker lead to.
-/

namespace ReactorSynth

namespace PythonClass

/-! ## Comments above classes -/

/-- The comment line above the class of a name. -/
def commentLine (name : String) : CodeLine := ⟨0, "# Python class for reactor " ++ name⟩

/-- The line that opens the class of a name. -/
def classLine (name : String) : CodeLine := ⟨0, "class _" ++ name ++ ":"⟩

/-- Whether a line is a comment above a class. Lines inside of a class may have the same text, but
they stand at a deeper level. -/
def isClassComment (line : CodeLine) : Bool :=
  line.level == 0 && "# Python class for reactor ".toList.isPrefixOf line.text.toList

/-- The code as it is, or without the comment lines above its classes. -/
def withComments (comments : Bool) (code : Code) : Code :=
  if comments then code else code.filter fun line => !isClassComment line

/-- The code is that of classes of the given names, in order: above each class line its comment line,
below it the body of the class. -/
inductive IsClasses : List String → Code → Prop
  | nil : IsClasses [] []
  | cons {name : String} {names : List String} {body rest : Code} (hbody : IsBody body)
      (hrest : IsClasses names rest) :
      IsClasses (name :: names) (commentLine name :: classLine name :: body ++ rest)

theorem isClassComment_commentLine (name : String) : isClassComment (commentLine name) = true := by
  simp [isClassComment, commentLine]

theorem isClassComment_classLine (name : String) : isClassComment (classLine name) = false := by
  simp [isClassComment, classLine, List.isPrefixOf]

theorem isClassComment_of_isBody {body : Code} (h : IsBody body) {line : CodeLine}
    (hline : line ∈ body) : isClassComment line = false := by
  unfold isClassComment
  rcases h line hline with htext | hlevel
  · simp [htext]
  · simp [Nat.ne_of_gt hlevel]

@[simp] theorem withComments_nil (comments : Bool) : withComments comments [] = [] := by
  cases comments <;> rfl

@[simp] theorem withComments_append (comments : Bool) (a b : Code) :
    withComments comments (a ++ b) = withComments comments a ++ withComments comments b := by
  cases comments
  · exact List.filter_append a b
  · rfl

/-! ## The code of a class -/

/-- The code of a class with the comment above it. -/
def commentedClass (r : Reactor) (methods : Code) : Code :=
  commentLine r.name :: classLine r.name :: bodyCode r methods

/-- The code of a class is the commented class, with its comment or without it. -/
theorem classCode_eq_withComments {ctx : ClassContext} (hname : '\n' ∉ ctx.reactor.name.toList)
    (methods : Code) :
    classCode ctx methods =
      withComments ctx.options.classComments (commentedClass ctx.reactor methods) := by
  have hbody : (bodyCode ctx.reactor methods).filter (fun line => !isClassComment line) =
      bodyCode ctx.reactor methods := List.filter_eq_self.mpr fun line hline => by
    rw [isClassComment_of_isBody (isBody_bodyCode _ _) hline]
    rfl
  rw [classCode_eq_append, headerCode_eq hname, headerLines, withComments, commentedClass]
  cases ctx.options.classComments with
  | false =>
    rw [if_neg Bool.false_ne_true, if_neg Bool.false_ne_true,
      List.filter_cons_of_neg (by simp [isClassComment_commentLine]),
      List.filter_cons_of_pos (by simp [isClassComment_classLine]), hbody]
    rfl
  | true => rfl

theorem unbroken_commentedClass {r : Reactor} (hname : '\n' ∉ r.name.toList) {methods : Code}
    (h : methods.Unbroken) : (commentedClass r methods).Unbroken := by
  have hclass : classCode ⟨⟨[]⟩, 0, r, {}⟩ methods = commentedClass r methods :=
    classCode_eq_withComments hname methods
  rw [← hclass]
  exact unbroken_classCode h

/-- The options have no say in the methods of a class. -/
theorem methods_options (p : Program) (id : Nat) (r : Reactor) (o o' : Options)
    (reactions : List (Nat × Reaction)) :
    methods ⟨p, id, r, o⟩ reactions = methods ⟨p, id, r, o'⟩ reactions :=
  methods_congr fun _ _ => rfl

end PythonClass

namespace Expansion

open PythonClass

variable {p : Program} {t : InstanceTree} {f : Federate}

/-! ## The code of an expansion -/

/-- The code of the class of an instance with the comment above it, unless a reaction of the class
fails. -/
def codeOf (p : Program) (f : Federate) (i : Instance) : Except GenError Code :=
  match p.reactor? i.reactor with
  | none => .ok []
  | some r =>
    let written := methods ⟨p, i.reactor, r, {}⟩
      (r.indexedReactions.filter fun (k, _) => f.keeps r ⟨i.reactor, k⟩)
    written.1.map fun _ => commentedClass r written.2

/-- The text of the class of an instance is rendered from its code. -/
theorem textOf_toPython_eq (hnames : ∀ r ∈ p.reactors, '\n' ∉ r.name.toList) (o : Options)
    (i : Instance) :
    (toPython p t f o).textOf i =
      (codeOf p f i).map fun code =>
        (withComments o.classComments code).render o.indentWidth := by
  unfold textOf codeOf
  rw [show (toPython p t f o).program = p from rfl]
  cases hr : p.reactor? i.reactor with
  | none => simp [Except.map]
  | some r =>
    have hname : '\n' ∉ r.name.toList := hnames r (List.mem_of_getElem? hr)
    have htext : (toPython p t f o).classText i.reactor r =
        PythonClass.emitter.classText ⟨p, i.reactor, r, o⟩
          (r.indexedReactions.filter fun (k, _) => f.keeps r ⟨i.reactor, k⟩) := rfl
    have hclass (methods : Code) : classCode ⟨p, i.reactor, r, o⟩ methods =
        withComments o.classComments (commentedClass r methods) :=
      classCode_eq_withComments hname methods
    simp only [htext, classText_eq, hclass, methods_options p i.reactor r o {}]
    cases (methods ⟨p, i.reactor, r, {}⟩ _).1 <;> rfl

/-- The code of an instance is that of a commented class, without line feeds in its lines. -/
theorem codeOf_eq_ok {i : Instance} {r : Reactor} {code : Code} (hr : p.reactor? i.reactor = some r)
    (h : codeOf p f i = .ok code) :
    ∃ methods, methods.Unbroken ∧ code = commentedClass r methods := by
  unfold codeOf at h
  rw [hr] at h
  simp only at h
  cases hwritten : (methods ⟨p, i.reactor, r, {}⟩
      (r.indexedReactions.filter fun (k, _) => f.keeps r ⟨i.reactor, k⟩)).1 with
  | error e => simp [hwritten, Except.map] at h
  | ok u =>
    rw [hwritten] at h
    exact ⟨_, unbroken_methods _ _, (Except.ok.inj h).symm⟩

/-- Options with the same delay marker have the same classes written, at the same instances. -/
theorem writers_toPython {o o' : Options} (h : o.delayMarker = o'.delayMarker) :
    (toPython p t f o).writers = (toPython p t f o').writers := by
  have hmay : (toPython p t f o).mayWrite = (toPython p t f o').mayWrite := by
    funext i
    unfold mayWrite isEligible Options.isDelayClass
    simp only [toPython, h]
  rw [writers, writers, emission, emission, hmay]
  rfl

/-! ## The layout of the classes -/

/-- Commented classes, one behind the other, are code of classes. -/
theorem isClasses_flatMap {α : Type} {name : α → String} {code : α → Code} {l : List α}
    (h : ∀ a ∈ l, ∃ body, IsBody body ∧ code a = commentLine (name a) :: classLine (name a) :: body) :
    IsClasses (l.map name) (l.flatMap code) := by
  induction l with
  | nil => exact .nil
  | cons a l ih =>
    obtain ⟨⟨body, hbody, hcode⟩, hrest⟩ := List.forall_mem_cons.mp h
    rw [List.map_cons, List.flatMap_cons, hcode]
    exact .cons hbody (ih hrest)

theorem render_withComments_flatMap {α : Type} {code : α → Code} (comments : Bool) (width : Nat)
    (l : List α) :
    (withComments comments (l.flatMap code)).render width =
      String.join (l.map fun a => (withComments comments (code a)).render width) := by
  induction l with
  | nil => simp
  | cons a l ih =>
    rw [List.flatMap_cons, withComments_append, Code.render_append, ih, List.map_cons,
      String.join_cons]

/-- An expansion fails with the first class without a code. -/
theorem expandClasses_of_failsAt (hnames : ∀ r ∈ p.reactors, '\n' ∉ r.name.toList) {o : Options}
    {before : List Instance} {i : Instance} {e : GenError}
    (h : FailsAt (codeOf p f) (toPython p t f o).writers before i e) :
    (toPython p t f o).expandClasses = .error e := by
  have htext : (toPython p t f o).textOf = fun i => (codeOf p f i).map fun code =>
      (withComments o.classComments code).render o.indentWidth :=
    funext (textOf_toPython_eq hnames o)
  refine expandClasses_eq_error_iff.mpr ⟨before, i, ?_⟩
  rw [htext]
  exact failsAt_map h

/-- An expansion renders the codes of its classes, one behind the other. -/
theorem expandClasses_of_codeOf (hnames : ∀ r ∈ p.reactors, '\n' ∉ r.name.toList) {o : Options}
    {code : Instance → Code}
    (h : ∀ i ∈ (toPython p t f o).writers, codeOf p f i = .ok (code i)) :
    (toPython p t f o).expandClasses =
      .ok ⟨(withComments o.classComments ((toPython p t f o).writers.flatMap code)).render
          o.indentWidth, (toPython p t f o).writers.map (toPython p t f o).className⟩ := by
  have htext : ∀ i ∈ (toPython p t f o).writers, (toPython p t f o).textOf i =
      .ok ((withComments o.classComments (code i)).render o.indentWidth) := by
    intro i hi
    rw [textOf_toPython_eq hnames, h i hi]
    rfl
  have hwrite := writeEach_of_ok (s := {}) htext
  rw [writers] at hwrite
  rw [expandClasses_eq, hwrite, render_withComments_flatMap]
  rfl

/-- The codes of the instances that write are code of classes, without line feeds in its lines. -/
theorem isClasses_of_codeOf (hnames : ∀ r ∈ p.reactors, '\n' ∉ r.name.toList) {o : Options}
    {code : Instance → Code}
    (h : ∀ i ∈ (toPython p t f o).writers, codeOf p f i = .ok (code i)) :
    IsClasses ((toPython p t f o).writers.map (toPython p t f o).className)
        ((toPython p t f o).writers.flatMap code) ∧
      Code.Unbroken ((toPython p t f o).writers.flatMap code) := by
  have hclass : ∀ i ∈ (toPython p t f o).writers, ∃ r ∈ p.reactors, ∃ methods : Code,
      methods.Unbroken ∧ (toPython p t f o).className i = r.name ∧
        code i = commentedClass r methods := by
    intro i hi
    obtain ⟨r, hr⟩ : ∃ r, p.reactor? i.reactor = some r := reactor_of_mem_writers hi
    obtain ⟨methods, hmethods, hcode⟩ := codeOf_eq_ok hr (h i hi)
    have hname : p.className i.reactor = r.name := by rw [Program.className, hr]
    exact ⟨r, List.mem_of_getElem? hr, methods, hmethods, hname, hcode⟩
  constructor
  · refine isClasses_flatMap fun i hi => ?_
    obtain ⟨r, -, methods, -, hname, hcode⟩ := hclass i hi
    rw [hcode, hname]
    exact ⟨_, isBody_bodyCode r methods, rfl⟩
  · refine Code.unbroken_flatMap.mpr fun i hi => ?_
    obtain ⟨r, hr, methods, hmethods, -, hcode⟩ := hclass i hi
    rw [hcode]
    exact unbroken_commentedClass (hnames r hr) hmethods

/-- Expand a program whose reactor names have no line feeds to Python classes. Options with the same
delay marker either all fail, with one error, or all write the same classes in the same order. Then
there is one code for all of them, whose lines hold no line feeds: for each class a comment line, the
class line, and a body below level zero. Each source is this code, rendered with the width of a level
that the options ask for, and without the comment lines above the classes unless the options ask for
these. -/
theorem expandClasses_layout (hnames : ∀ r ∈ p.reactors, '\n' ∉ r.name.toList) (marker : String) :
    (∃ e, ∀ o : Options, o.delayMarker = marker → (toPython p t f o).expandClasses = .error e) ∨
    ∃ names code, IsClasses names code ∧ code.Unbroken ∧
      ∀ o : Options, o.delayMarker = marker → (toPython p t f o).expandClasses =
        .ok ⟨(withComments o.classComments code).render o.indentWidth, names⟩ := by
  let plain : Options := { delayMarker := marker }
  have hwriters : ∀ o : Options, o.delayMarker = marker →
      (toPython p t f o).writers = (toPython p t f plain).writers := fun o ho => writers_toPython ho
  by_cases hfails : ∃ i ∈ (toPython p t f plain).writers, ∃ e, codeOf p f i = .error e
  · obtain ⟨before, i, e, hfails⟩ := exists_failsAt_iff.mpr hfails
    refine Or.inl ⟨e, fun o ho => ?_⟩
    rw [← hwriters o ho] at hfails
    exact expandClasses_of_failsAt hnames hfails
  · have hcode : ∀ i ∈ (toPython p t f plain).writers,
        codeOf p f i = .ok ((codeOf p f i).toOption.getD []) := by
      intro i hi
      cases hi' : codeOf p f i with
      | error e => exact absurd ⟨i, hi, e, hi'⟩ hfails
      | ok code => rfl
    obtain ⟨hclasses, hunbroken⟩ := isClasses_of_codeOf hnames hcode
    refine Or.inr ⟨_, _, hclasses, hunbroken, fun o ho => ?_⟩
    rw [← hwriters o ho] at hcode ⊢
    exact expandClasses_of_codeOf hnames hcode

/-- The code of the two classes of `borrowedHeaders`. -/
def borrowedCode : Code :=
  borrowedHeaders.tree.instances.flatMap fun i =>
    (codeOf borrowedHeaders.program borrowedHeaders.federate i).toOption.getD []

theorem expandClasses_borrowedHeaders (o : Options) (ho : o.delayMarker = "_lf_GenDelay") :
    borrowedCode.Unbroken ∧
      (toPython borrowedHeaders.program borrowedHeaders.tree borrowedHeaders.federate
        o).expandClasses = .ok ⟨(withComments o.classComments borrowedCode).render o.indentWidth,
          ["Main", "Leaf"]⟩ := by
  have hnames : ∀ r ∈ borrowedHeaders.program.reactors, '\n' ∉ r.name.toList := by decide
  have hwriters : (toPython borrowedHeaders.program borrowedHeaders.tree borrowedHeaders.federate
      o).writers = borrowedHeaders.tree.instances :=
    (writers_toPython (show o.delayMarker = ({} : Options).delayMarker from ho)).trans rfl
  have hcode : ∀ i ∈ borrowedHeaders.tree.instances,
      codeOf borrowedHeaders.program borrowedHeaders.federate i =
        .ok ((codeOf borrowedHeaders.program borrowedHeaders.federate i).toOption.getD []) := by
    intro i hi
    rcases List.mem_cons.mp hi with rfl | hi
    · rfl
    · rw [List.mem_singleton.mp hi]
      rfl
  rw [← hwriters] at hcode
  have hclasses := isClasses_of_codeOf hnames hcode
  have hexpand := expandClasses_of_codeOf hnames hcode
  rw [hwriters] at hclasses hexpand
  exact ⟨hclasses.2, hexpand⟩

/-- Two layouts of a program whose texts pass for classes: without comments and indentation, and with
both. -/
theorem expandClasses_layout_borrowedHeaders :
    borrowedHeaders.program.elaborateFrom 1 = .ok borrowedHeaders.tree ∧
      (∀ r ∈ borrowedHeaders.program.reactors, '\n' ∉ r.name.toList) ∧
      ∃ code, IsClasses ["Main", "Leaf"] code ∧
        (toPython borrowedHeaders.program borrowedHeaders.tree borrowedHeaders.federate
          { indentWidth := 0, classComments := false }).expandClasses =
            .ok ⟨(withComments false code).render 0, ["Main", "Leaf"]⟩ ∧
        (toPython borrowedHeaders.program borrowedHeaders.tree borrowedHeaders.federate
          { indentWidth := 2 }).expandClasses = .ok ⟨code.render 2, ["Main", "Leaf"]⟩ ∧
        (splitLines ((withComments false code).render 0)).take 3 =
          ["class _Main:",
           "def __init__(self, **kwargs):",
           "# Handle parameters that are set in instantiation"] ∧
        (splitLines (code.render 2)).take 4 =
          ["# Python class for reactor Main",
           "class _Main:",
           "  def __init__(self, **kwargs):",
           "    # Handle parameters that are set in instantiation"] := by
  have hnames : ∀ r ∈ borrowedHeaders.program.reactors, '\n' ∉ r.name.toList := by decide
  obtain ⟨hunbroken, hzero⟩ :=
    expandClasses_borrowedHeaders { indentWidth := 0, classComments := false } rfl
  obtain ⟨-, htwo⟩ := expandClasses_borrowedHeaders { indentWidth := 2 } rfl
  rcases expandClasses_layout hnames "_lf_GenDelay" with ⟨e, he⟩ | ⟨names, code, hcode, -, hsame⟩
  · rw [he { indentWidth := 2 } rfl] at htwo
    exact absurd htwo (by simp)
  · have hsame0 := hsame { indentWidth := 0, classComments := false } rfl
    have hsame2 := hsame { indentWidth := 2 } rfl
    obtain ⟨hsource0, hclasses⟩ :=
      ExpandedClasses.mk.inj (Except.ok.inj (hsame0.symm.trans hzero))
    obtain ⟨hsource2, -⟩ := ExpandedClasses.mk.inj (Except.ok.inj (hsame2.symm.trans htwo))
    obtain rfl : names = ["Main", "Leaf"] := hclasses
    refine ⟨by rfl, hnames, code, hcode, hsame0, hsame2, ?_, ?_⟩
    · have hfilter : (withComments false borrowedCode).Unbroken := fun line hline =>
        hunbroken line (List.mem_filter.mp hline).1
      rw [hsource0, Code.splitLines_render hfilter]
      decide +kernel
    · have hlines := Code.splitLines_render hunbroken 2
      rw [show code.render 2 = borrowedCode.render 2 from hsource2, hlines]
      decide +kernel

end Expansion

end ReactorSynth
