import ReactorSynth.Proofs.FirstFailure
import ReactorSynth.PythonClass

/-!
# The code of a Python class

The emitter of Python classes writes block after block. Here a class is put together from its
blocks: `methods` is what the given reactions write and how that ends, `classCode` the class around
it.

* `run_writeReactions`: the reactions write their methods behind what has been written.
* **`classText_eq`**: the text of a class is its code, rendered, unless a method fails.
* `classText_congr`: it depends on the rest of the program through the methods alone.
* `classText_eq_error_iff`: a class fails with the error of its first reaction without a method.
-/

namespace ReactorSynth.PythonClass

/-- The method of a reaction that comes with its position. -/
def methodCode (ctx : ClassContext) (m : Nat × Reaction) : Except GenError Code :=
  reactionCode ctx m.1 m.2

/-- How writing the methods of some reactions ends, and what has been written by then: each method
behind an empty line, and of one that fails the empty line alone. -/
def methods (ctx : ClassContext) : List (Nat × Reaction) → Except GenError Unit × Code
  | [] => (.ok (), [])
  | m :: rest =>
    match methodCode ctx m with
    | .error e => (.error e, Code.blank)
    | .ok method =>
      let (ending, others) := methods ctx rest
      (ending, Code.blank ++ method ++ others)

/-- The code of a class with the given methods. -/
def classCode (ctx : ClassContext) (methods : Code) : Code :=
  headerCode ctx ++
    Code.nest 1
      (preambleCode ctx.reactor ++ constructorCode ctx.reactor ++ gettersCode ctx.reactor ++
        methods) ++
    Code.blank

variable {ctx : ClassContext} {reactions : List (Nat × Reaction)}

theorem run_writeReactions (ctx : ClassContext) (reactions : List (Nat × Reaction))
    (b : CodeBuilder) : (writeReactions ctx reactions).run.run b =
      ((methods ctx reactions).1, b.write (methods ctx reactions).2) := by
  induction reactions generalizing b with
  | nil =>
    have hwrite : b.write [] = b := by simp [CodeBuilder.write]
    rw [methods, hwrite]
    rfl
  | cons m rest ih =>
    obtain ⟨index, reaction⟩ := m
    simp only [methods, methodCode, writeReactions, writeReaction]
    cases reactionCode ctx index reaction with
    | error e => rfl
    | ok method =>
      rw [CodeBuilder.write_append, CodeBuilder.write_append]
      exact ih ((b.write Code.blank).write method)

/-- What a class starts with, before its reactions. -/
def opening (ctx : ClassContext) : CodeBuilder :=
  ((((({} : CodeBuilder).write (headerCode ctx)).indent.write (preambleCode ctx.reactor)).write
    (constructorCode ctx.reactor)).write (gettersCode ctx.reactor))

/-- A class is written behind its opening, and closed unless its reactions fail. -/
theorem run_emit (ctx : ClassContext) (reactions : List (Nat × Reaction)) :
    (emitter.emit ctx reactions).run.run {} =
      match (writeReactions ctx reactions).run.run (opening ctx) with
      | (.ok _, b) => (.ok (), b.unindent.blank)
      | (.error e, b) => (.error e, b) := by
  -- What closes a class runs where the reactions end, unless they fail.
  have hclose : (emitter.emit ctx reactions).run.run {} =
      (ExceptT.bindCont (fun _ : Unit => do
        modify CodeBuilder.unindent
        modify CodeBuilder.blank)
          ((writeReactions ctx reactions).run.run (opening ctx)).1 :
            WriteM (Except GenError Unit)).run
        ((writeReactions ctx reactions).run.run (opening ctx)).2 := rfl
  rw [hclose]
  cases (writeReactions ctx reactions).run.run (opening ctx) with
  | mk ending b => cases ending <;> rfl

/-- The text of a class is that of its code, unless one of its methods fails. -/
theorem classText_eq (ctx : ClassContext) (reactions : List (Nat × Reaction)) :
    emitter.classText ctx reactions =
      (methods ctx reactions).1.map fun _ =>
        (classCode ctx (methods ctx reactions).2).render ctx.options.indentWidth := by
  rw [ClassEmitter.classText, run_emit, run_writeReactions]
  cases (methods ctx reactions).1 with
  | error e => rfl
  | ok _ =>
    simp [Except.map, CodeBuilder.render, CodeBuilder.unindent, CodeBuilder.blank,
      CodeBuilder.write, CodeBuilder.indent, opening, classCode]

theorem methods_congr {ctx' : ClassContext}
    (h : ∀ m ∈ reactions, methodCode ctx' m = methodCode ctx m) :
    methods ctx' reactions = methods ctx reactions := by
  induction reactions with
  | nil => rfl
  | cons m rest ih =>
    obtain ⟨hm, hrest⟩ := List.forall_mem_cons.mp h
    rw [methods, methods, hm, ih hrest]

/-- Of a class only the reactor, the options and the methods count. -/
theorem classText_congr {ctx' : ClassContext} (hreactor : ctx'.reactor = ctx.reactor)
    (hoptions : ctx'.options = ctx.options)
    (h : ∀ m ∈ reactions, methodCode ctx' m = methodCode ctx m) :
    emitter.classText ctx' reactions = emitter.classText ctx reactions := by
  rw [classText_eq, classText_eq, methods_congr h]
  simp only [classCode, headerCode, hreactor, hoptions]

theorem methods_fst_eq_error_iff {e : GenError} :
    (methods ctx reactions).1 = .error e ↔
      ∃ before m, FailsAt (methodCode ctx) reactions before m e := by
  induction reactions with
  | nil => simp [methods, not_failsAt_nil]
  | cons m rest ih =>
    rw [methods]
    cases hm : methodCode ctx m with
    | error e' =>
      simp only [failsAt_cons_of_error hm, Except.error.injEq]
      constructor
      · rintro rfl
        exact ⟨[], m, rfl, rfl, rfl⟩
      · rintro ⟨_, _, rfl, rfl, rfl⟩
        rfl
    | ok method =>
      simp only [failsAt_cons_of_ok hm]
      rw [ih]
      constructor
      · rintro ⟨before, m', h⟩
        exact ⟨m :: before, m', before, rfl, h⟩
      · rintro ⟨-, m', before, -, h⟩
        exact ⟨before, m', h⟩

theorem classText_eq_error_iff {e : GenError} :
    emitter.classText ctx reactions = .error e ↔
      ∃ before m, FailsAt (methodCode ctx) reactions before m e := by
  rw [← methods_fst_eq_error_iff, classText_eq]
  cases (methods ctx reactions).1 <;> simp [Except.map]

end ReactorSynth.PythonClass
