import ReactorSynth.Proofs.BrokenReactions
import ReactorSynth.Proofs.JsonText
import ReactorSynth.Proofs.SourceLines

/-!
# What a federate bears on

The text of a Python class is put together from texts that no federate has a say in: an opening,
one text for each of its reactions, and an empty line (`classText_eq_mapM`). A federate chooses
which reactions of a federated reactor are among them, and nothing else.

* `map_fst_keptReactions`: the reactions kept stand in the order of the reactor.
* `exists_reactionText_eq`: the text of a reaction opens a method named by its position.
* **`expandClasses_class_independent`**: of the classes that two federates both write, the texts
  agree but for the reactions that only one of them keeps.
-/

namespace ReactorSynth

/-! ## Openings of texts -/

namespace Text

theorem linesList_cons {c : Char} (hfeed : c ≠ '\n') (hreturn : c ≠ '\r') (rest : List Char) :
    linesList (c :: rest) = consFirst c (linesList rest) := by
  rw [linesList]
  · rintro rest' rfl
    exact absurd rfl hreturn
  · exact hfeed

/-- The first line of a text starts as the text does, up to where its first line may end. -/
theorem exists_linesList_append {start : List Char} (hne : start ≠ [])
    (h : ∀ c ∈ start, c ≠ '\n' ∧ c ≠ '\r') (rest : List Char) :
    ∃ line lines, linesList (start ++ rest) = (start ++ line) :: lines := by
  induction start with
  | nil => exact absurd rfl hne
  | cons c start ih =>
    obtain ⟨⟨hfeed, hreturn⟩, hstart⟩ := List.forall_mem_cons.mp h
    rw [List.cons_append, linesList_cons hfeed hreturn]
    cases start with
    | nil =>
      cases hrest : linesList rest with
      | nil => exact ⟨[], [], by simp [hrest, consFirst]⟩
      | cons line lines => exact ⟨line, lines, by simp [hrest, consFirst]⟩
    | cons d start =>
      obtain ⟨line, lines, hlines⟩ := ih (List.cons_ne_nil d start) hstart
      exact ⟨line, lines, by rw [hlines]; rfl⟩

end Text

/-- Code of a text opens as the text does. -/
theorem Code.exists_render_ofText {start : String} (hvisible : Text.allBlank start.toList = false)
    (h : ∀ c ∈ start.toList, c ≠ '\n' ∧ c ≠ '\r') (rest : String) (levels width : Nat) :
    ∃ others, (Code.nest levels (Code.ofText (start ++ rest))).render width =
      String.ofList (List.replicate (levels * width) ' ') ++ start ++ others := by
  have hne : start.toList ≠ [] := fun hnil => by simp [hnil, Text.allBlank] at hvisible
  obtain ⟨line, lines, hlines⟩ := Text.exists_linesList_append hne h rest.toList
  have hfirst : CodeLine.ofText (String.ofList (start.toList ++ line)) =
      ⟨0, start ++ String.ofList line⟩ := by
    rw [CodeLine.ofText, String.toList_ofList, Text.allBlank_append, hvisible]
    simp
  have hcode : Code.ofText (start ++ rest) = ⟨0, start ++ String.ofList line⟩ ::
      (lines.map String.ofList).map CodeLine.ofText := by
    rw [Code.ofText, Text.lines, String.toList_append, hlines, List.map_cons, List.map_cons, hfirst]
  have hnonempty : (start ++ String.ofList line).isEmpty = false := by
    rw [← Bool.not_eq_true, String.isEmpty_iff, ← String.toList_inj]
    simp [hne]
  refine ⟨String.ofList line ++ "\n" ++
    (Code.nest levels ((lines.map String.ofList).map CodeLine.ofText)).render width, ?_⟩
  rw [hcode, Code.nest, List.map_cons, Code.render, List.map_cons, String.join_cons,
    CodeLine.render, hnonempty, Nat.zero_add]
  simp only [Bool.false_eq_true, if_false, String.append_assoc]
  rfl

/-! ## The texts of a class -/

namespace PythonClass

variable {ctx : ClassContext} {reactions : List (Nat × Reaction)}

/-- The text of a class before its reactions. -/
def openingText (ctx : ClassContext) : String :=
  (headerCode ctx ++ Code.nest 1
    (preambleCode ctx.reactor ++ constructorCode ctx.reactor ++ gettersCode ctx.reactor)).render
      ctx.options.indentWidth

/-- The text of a reaction in its class: its method, behind an empty line. -/
def methodText (ctx : ClassContext) (m : Nat × Reaction) : Except GenError String :=
  (methodCode ctx m).map fun method =>
    (Code.nest 1 (Code.blank ++ method)).render ctx.options.indentWidth

/-- The methods of some reactions have the texts of these, one behind the other. -/
theorem render_methods (ctx : ClassContext) (reactions : List (Nat × Reaction)) :
    ((methods ctx reactions).1.map fun _ =>
        (Code.nest 1 (methods ctx reactions).2).render ctx.options.indentWidth) =
      (reactions.mapM (methodText ctx)).map String.join := by
  induction reactions with
  | nil => rfl
  | cons m rest ih =>
    rw [List.mapM_cons, methods, methodText]
    cases methodCode ctx m with
    | error e => rfl
    | ok method =>
      let text := (Code.nest 1 (Code.blank ++ method)).render ctx.options.indentWidth
      -- The text of the first method goes in front of those of the others.
      trans ((methods ctx rest).1.map fun _ =>
        (Code.nest 1 (methods ctx rest).2).render ctx.options.indentWidth).map (text ++ ·)
      · cases (methods ctx rest).1 <;> simp [Except.map, text, String.append_assoc]
      · rw [ih]
        cases rest.mapM (methodText ctx) <;>
          simp [Except.map, bind, Except.bind, pure, Except.pure, String.join_cons, text]

/-- A class is its opening, the texts of its reactions, and an empty line. -/
theorem classText_eq_mapM (ctx : ClassContext) (reactions : List (Nat × Reaction)) :
    emitter.classText ctx reactions = (reactions.mapM (methodText ctx)).map fun texts =>
      openingText ctx ++ String.join texts ++ "\n" := by
  have hrender : ∀ code : Code, (classCode ctx code).render ctx.options.indentWidth =
      openingText ctx ++ (Code.nest 1 code).render ctx.options.indentWidth ++ "\n" := by
    intro code
    have hblank : Code.blank.render ctx.options.indentWidth = "\n" := rfl
    simp only [classCode, openingText, Code.nest_append, Code.render_append, hblank,
      String.append_assoc]
  rw [classText_eq]
  trans ((methods ctx reactions).1.map fun _ =>
    (Code.nest 1 (methods ctx reactions).2).render ctx.options.indentWidth).map
      (openingText ctx ++ · ++ "\n")
  · cases (methods ctx reactions).1 <;> simp [Except.map, hrender]
  · rw [render_methods]
    cases reactions.mapM (methodText ctx) <;> rfl

/-- The text of the reaction at a position in the class of its reactor. -/
def reactionText (ctx : ClassContext) (k : Nat) : Except GenError String :=
  match ctx.reactor.reactions[k]? with
  | none => .ok ""
  | some reaction => methodText ctx (k, reaction)

/-- The text of the reaction at a position, if it has one. -/
def reactionTextD (ctx : ClassContext) (k : Nat) : String := (reactionText ctx k).toOption.getD ""

/-- The text of the class that keeps some of the reactions of its reactor, in their order. -/
def classWith (ctx : ClassContext) (keeps : Nat → Bool) : String :=
  openingText ctx ++ String.join
    (((List.range ctx.reactor.reactions.length).filter keeps).map (reactionTextD ctx)) ++ "\n"

/-- A class with a text has one for each of its reactions, and these make up the class. -/
theorem classText_eq_join {text : String}
    (hreactions : ∀ m ∈ reactions, ctx.reactor.reactions[m.1]? = some m.2)
    (h : emitter.classText ctx reactions = .ok text) :
    (∀ k ∈ reactions.map Prod.fst, reactionText ctx k = .ok (reactionTextD ctx k)) ∧
      text = openingText ctx ++
        String.join ((reactions.map Prod.fst).map (reactionTextD ctx)) ++ "\n" := by
  rw [classText_eq_mapM] at h
  cases htexts : reactions.mapM (methodText ctx) with
  | error e => simp [htexts, Except.map] at h
  | ok texts =>
    rw [htexts] at h
    have hmap : (reactions.map Prod.fst).map (reactionText ctx) = texts.map .ok := by
      rw [← mapM_eq_ok_iff.mp htexts, List.map_map]
      refine List.map_congr_left fun m hm => ?_
      simp only [Function.comp, reactionText, hreactions m hm]
    have htext : ∀ k ∈ reactions.map Prod.fst, reactionText ctx k = .ok (reactionTextD ctx k) := by
      intro k hk
      have hmem : reactionText ctx k ∈ texts.map .ok := hmap ▸ List.mem_map_of_mem hk
      obtain ⟨text, -, htext⟩ := List.mem_map.mp hmem
      rw [reactionTextD, ← htext]
      rfl
    have hjoin : (reactions.map Prod.fst).map (reactionTextD ctx) = texts := by
      refine (List.map_inj_right fun _ _ => Except.ok.inj).mp (Eq.trans ?_ hmap)
      rw [List.map_map]
      exact List.map_congr_left fun k hk => (htext k hk).symm
    exact ⟨htext, by rw [hjoin]; exact (Except.ok.inj h).symm⟩

/-- What the method of the reaction at a position starts with. -/
def methodStart (index : Nat) : String :=
  "def reaction_function_" ++ toString index ++ "(self"

theorem methodStart_visible (index : Nat) : Text.allBlank (methodStart index).toList = false := by
  unfold methodStart
  simp [Text.allBlank, Text.isBlank]

theorem methodStart_unbroken (index : Nat) :
    ∀ c ∈ (methodStart index).toList, c ≠ '\n' ∧ c ≠ '\r' := by
  have hdigits : ∀ c ∈ (toString index).toList, c ≠ '\n' ∧ c ≠ '\r' := by
    intro c hc
    have hdigit := Json.isAsciiDigit_toString index c hc
    constructor
    · rintro rfl
      exact absurd hdigit (by decide)
    · rintro rfl
      exact absurd hdigit (by decide)
  unfold methodStart
  rw [String.toList_append, String.toList_append, List.forall_mem_append, List.forall_mem_append]
  exact ⟨⟨by simp, hdigits⟩, by simp⟩

theorem signature_eq (index : Nat) (arguments : List String) :
    signature index arguments =
      methodStart index ++ (String.join (arguments.map (", " ++ ·)) ++ "):") := by
  unfold signature methodStart
  rw [String.append_assoc]

theorem exists_reactionCode_eq {index : Nat} {reaction : Reaction} {method : Code}
    (h : reactionCode ctx index reaction = .ok method) :
    ∃ arguments body, method = Code.ofText (signature index arguments) ++ Code.nest 1 body := by
  obtain ⟨resolved, -, h⟩ := bind_eq_ok_iff.mp h
  obtain ⟨effects, -, h⟩ := bind_eq_ok_iff.mp h
  exact ⟨resolved.arguments, _, (Except.ok.inj h).symm⟩

/-- The text of a reaction opens a method that is named by the position of the reaction. -/
theorem exists_reactionText_eq {k : Nat} {text : String} (hk : k < ctx.reactor.reactions.length)
    (h : reactionText ctx k = .ok text) : ∃ rest,
      text = "\n" ++ String.ofList (List.replicate ctx.options.indentWidth ' ') ++
        methodStart k ++ rest := by
  have hreaction : ctx.reactor.reactions[k]? = some ctx.reactor.reactions[k] :=
    List.getElem?_eq_getElem hk
  rw [reactionText, hreaction] at h
  unfold methodText at h
  cases hm : methodCode ctx (k, ctx.reactor.reactions[k]) with
  | error e => simp [hm, Except.map] at h
  | ok method =>
    obtain rfl : (Code.nest 1 (Code.blank ++ method)).render ctx.options.indentWidth = text := by
      simpa [hm, Except.map] using h
    obtain ⟨arguments, body, rfl⟩ := exists_reactionCode_eq hm
    obtain ⟨rest, hrest⟩ := Code.exists_render_ofText (methodStart_visible k)
      (methodStart_unbroken k) (String.join (arguments.map (", " ++ ·)) ++ "):")
      1 ctx.options.indentWidth
    have hblank : (Code.nest 1 Code.blank).render ctx.options.indentWidth = "\n" := rfl
    refine ⟨rest ++ (Code.nest 1 (Code.nest 1 body)).render ctx.options.indentWidth, ?_⟩
    simp only [signature_eq, Code.nest_append, Code.render_append, hblank, hrest, Nat.one_mul,
      String.append_assoc]

end PythonClass

/-! ## The classes of two federates -/

namespace Expansion

theorem map_fst_keptReactions (x : Expansion) (id : Nat) (r : Reactor) :
    (x.keptReactions id r).map Prod.fst =
      (List.range r.reactions.length).filter fun k => x.federate.keeps r ⟨id, k⟩ := by
  have hindices : r.indexedReactions.map Prod.fst = List.range r.reactions.length := by
    rw [Reactor.indexedReactions, List.map_map, List.range_eq_range']
    exact List.zipIdx_map_snd 0 r.reactions
  rw [← hindices, List.filter_map]
  rfl

/-- The expansion of a program to Python classes for a federate. -/
def toPython (p : Program) (t : InstanceTree) (f : Federate) (o : Options) : Expansion :=
  ⟨p, t, f, PythonClass.emitter, o⟩

/-- The instances that write their classes in an expansion of the whole tree. -/
def writers (x : Expansion) : List Instance := x.emission {} x.tree.instances

variable {p : Program} {t : InstanceTree} {f g : Federate} {o : Options}

open PythonClass in
/-- The class of an instance is put together from texts that the federate has no say in. -/
theorem textOf_toPython {i : Instance} {text : String} {r : Reactor}
    (hr : p.reactor? i.reactor = some r) (h : (toPython p t f o).textOf i = .ok text) :
    (∀ k < r.reactions.length, f.keeps r ⟨i.reactor, k⟩ = true →
      reactionText ⟨p, i.reactor, r, o⟩ k = .ok (reactionTextD ⟨p, i.reactor, r, o⟩ k)) ∧
    text = classWith ⟨p, i.reactor, r, o⟩ fun k => f.keeps r ⟨i.reactor, k⟩ := by
  have hclass : PythonClass.emitter.classText ⟨p, i.reactor, r, o⟩
      ((toPython p t f o).keptReactions i.reactor r) = .ok text := by
    unfold textOf at h
    rwa [show (toPython p t f o).program.reactor? i.reactor = some r from hr] at h
  obtain ⟨htexts, htext⟩ := classText_eq_join (fun m hm => (mem_keptReactions.mp hm).1) hclass
  rw [map_fst_keptReactions] at htexts htext
  refine ⟨fun k hk hkeeps => ?_, htext⟩
  exact htexts k (List.mem_filter.mpr ⟨List.mem_range.mpr hk, hkeeps⟩)

theorem reactor_of_mem_writers {x : Expansion} {i : Instance} (h : i ∈ x.writers) :
    ∃ r, x.program.reactor? i.reactor = some r := by
  have hmay := (List.mem_filter.mp ((firstOfEach_sublist _ _ _).subset h)).2
  unfold mayWrite at hmay
  cases hr : x.program.reactor? i.reactor with
  | none => simp [hr] at hmay
  | some r => exact ⟨r, rfl⟩

open PythonClass in
/-- Expand a program to Python classes for two federates. Each source is the texts of its classes in
their order. If both federates write the class of one reactor, then the two texts of the class are
the same opening, the texts of the reactions that the federate keeps, by their positions, and an
empty line; a reaction has one text, and its method one name, whoever keeps it. So the two texts are
equal if the reactor is not federated or the federates keep the same of its reactions. -/
theorem expandClasses_class_independent {outf outg : ExpandedClasses}
    (hf : (toPython p t f o).expandClasses = .ok outf)
    (hg : (toPython p t g o).expandClasses = .ok outg) :
    ∃ textf textg : Instance → String,
      (outf.classNames = (toPython p t f o).writers.map (toPython p t f o).className ∧
        outf.source = String.join ((toPython p t f o).writers.map textf)) ∧
      (outg.classNames = (toPython p t g o).writers.map (toPython p t g o).className ∧
        outg.source = String.join ((toPython p t g o).writers.map textg)) ∧
      ∀ i ∈ (toPython p t f o).writers, ∀ j ∈ (toPython p t g o).writers, i.reactor = j.reactor →
        ∃ r, p.reactor? i.reactor = some r ∧
          textf i = classWith ⟨p, i.reactor, r, o⟩ (fun k => f.keeps r ⟨i.reactor, k⟩) ∧
          textg j = classWith ⟨p, i.reactor, r, o⟩ (fun k => g.keeps r ⟨i.reactor, k⟩) ∧
          (∀ k < r.reactions.length,
            f.keeps r ⟨i.reactor, k⟩ = true ∨ g.keeps r ⟨i.reactor, k⟩ = true →
              ∃ rest, reactionText ⟨p, i.reactor, r, o⟩ k =
                .ok ("\n" ++ String.ofList (List.replicate o.indentWidth ' ') ++ methodStart k ++
                  rest)) ∧
          (r.isFederated = false ∨ (∀ k < r.reactions.length,
            f.keeps r ⟨i.reactor, k⟩ = g.keeps r ⟨i.reactor, k⟩) → textf i = textg j) := by
  obtain ⟨textf, htextf, hsourcef⟩ := source_of_expandClasses hf
  obtain ⟨textg, htextg, hsourceg⟩ := source_of_expandClasses hg
  refine ⟨textf, textg, ⟨classNames_of_expandClasses hf, hsourcef⟩,
    ⟨classNames_of_expandClasses hg, hsourceg⟩, ?_⟩
  intro i hi j hj hreactor
  obtain ⟨r, hr⟩ : ∃ r, p.reactor? i.reactor = some r := reactor_of_mem_writers hi
  obtain ⟨hkeptf, hf'⟩ := textOf_toPython hr (htextf i hi)
  obtain ⟨hkeptg, hg'⟩ := textOf_toPython (hreactor ▸ hr) (htextg j hj)
  rw [← hreactor] at hkeptg hg'
  refine ⟨r, hr, hf', hg', ?_, ?_⟩
  · intro k hk hkeeps
    have htext : reactionText ⟨p, i.reactor, r, o⟩ k =
        .ok (reactionTextD ⟨p, i.reactor, r, o⟩ k) := hkeeps.elim (hkeptf k hk) (hkeptg k hk)
    obtain ⟨rest, hrest⟩ := exists_reactionText_eq hk htext
    exact ⟨rest, by rw [htext, hrest]⟩
  · intro hsame
    have hkeeps : ∀ k < r.reactions.length,
        f.keeps r ⟨i.reactor, k⟩ = g.keeps r ⟨i.reactor, k⟩ := by
      rcases hsame with hfederated | hsame
      · intro k _
        simp [Federate.keeps, hfederated]
      · exact hsame
    rw [hf', hg', classWith, classWith,
      List.filter_congr fun k hk => hkeeps k (List.mem_range.mp hk)]

/-- A federated reactor with four reactions, between two instances of one class. -/
def twoSides : Program where
  reactors :=
    [{ name := "Leaf"
       ports := [{ name := "in", direction := .input }]
       reactions := [{ triggers := [{ name := "in" }], code := "pass", label := some "take" }] },
     { name := "Main"
       isFederated := true
       reactions :=
         [{ sources := [{ container := some "left", name := "in" }], code := "left()" },
          { effects := [{ container := some "right", name := "in" }], code := "right()" },
          { code := "forward()" },
          { code := "both()\nagain()" }]
       instantiations :=
         [{ name := "left", reactorClass := "Leaf" },
          { name := "right", reactorClass := "Leaf" }] }]

/-- The instances of the two sides. -/
def twoSidesTree : InstanceTree :=
  .ofSites ⟨Text.lowercase "Main", 1, none⟩
    (.cons ⟨"left", 0, none⟩ .nil (.cons ⟨"right", 0, none⟩ .nil .nil))

/-- A federate of one side: it does not run the reaction of the other side, and the third reaction
carries messages. -/
def side (name : String) (other : Nat) : Federate :=
  FederateLayout.toFederate
    { name := name, instantiation := some name, excluded := [⟨1, other⟩], network := [⟨1, 2⟩] }

open PythonClass in
/-- The class of the leaves has one text, that of the main reactor two with the last reaction in
common. -/
theorem expandClasses_class_independent_twoSides :
    twoSides.elaborateFrom 1 = .ok twoSidesTree ∧
      ∃ outf outg, (toPython twoSides twoSidesTree (side "left" 1) {}).expandClasses = .ok outf ∧
        (toPython twoSides twoSidesTree (side "right" 0) {}).expandClasses = .ok outg ∧
        ∃ leaf opening left right both : String,
          outf.source = opening ++ (left ++ both) ++ "\n" ++ leaf ∧
          outg.source = opening ++ (right ++ both) ++ "\n" ++ leaf := by
  obtain ⟨outf, hf⟩ : ∃ out,
      (toPython twoSides twoSidesTree (side "left" 1) {}).expandClasses = .ok out := ⟨_, rfl⟩
  obtain ⟨outg, hg⟩ : ∃ out,
      (toPython twoSides twoSidesTree (side "right" 0) {}).expandClasses = .ok out := ⟨_, rfl⟩
  let main : Instance := ⟨⟨Text.lowercase "Main", 1, none⟩, 0, none⟩
  let left : Instance := ⟨⟨"left", 0, none⟩, 1, some 0⟩
  let right : Instance := ⟨⟨"right", 0, none⟩, 2, some 0⟩
  have hwritersf : (toPython twoSides twoSidesTree (side "left" 1) {}).writers = [main, left] := by
    rfl
  have hwritersg : (toPython twoSides twoSidesTree (side "right" 0) {}).writers = [main, right] := by
    rfl
  obtain ⟨textf, textg, ⟨-, hsourcef⟩, ⟨-, hsourceg⟩, hclass⟩ :=
    expandClasses_class_independent hf hg
  rw [hwritersf] at hclass hsourcef
  rw [hwritersg] at hclass hsourceg
  obtain ⟨r, hr, -, -, -, hequal⟩ := hclass left (by simp) right (by simp) rfl
  obtain rfl : twoSides.reactors[0] = r := Option.some.inj hr
  have hleaf : textf left = textg right := hequal (Or.inl rfl)
  obtain ⟨r, hr, hmainf, hmaing, -⟩ := hclass main (by simp) main (by simp) rfl
  obtain rfl : twoSides.reactors[1] = r := Option.some.inj hr
  let ctx : ClassContext := ⟨twoSides, 1, twoSides.reactors[1], {}⟩
  have hkeptf : ((List.range 4).filter fun k => (side "left" 1).keeps ctx.reactor ⟨1, k⟩) =
      [0, 3] := rfl
  have hkeptg : ((List.range 4).filter fun k => (side "right" 0).keeps ctx.reactor ⟨1, k⟩) =
      [1, 3] := rfl
  have hmainf : textf main = classWith ctx fun k => (side "left" 1).keeps ctx.reactor ⟨1, k⟩ :=
    hmainf
  have hmaing : textg main = classWith ctx fun k => (side "right" 0).keeps ctx.reactor ⟨1, k⟩ :=
    hmaing
  have hlength : ctx.reactor.reactions.length = 4 := rfl
  rw [classWith, hlength, hkeptf] at hmainf
  rw [classWith, hlength, hkeptg] at hmaing
  refine ⟨rfl, outf, outg, hf, hg, textf left, openingText ctx, reactionTextD ctx 0,
    reactionTextD ctx 1, reactionTextD ctx 3, ?_, ?_⟩
  · rw [hsourcef]
    simp [String.join_cons, hmainf]
  · rw [hsourceg]
    simp [String.join_cons, hmaing, hleaf]

end Expansion

end ReactorSynth
