import ReactorSynth.Generation
import ReactorSynth.Proofs.Digests
import ReactorSynth.Proofs.Walk

/-!
# Outcomes of generation

Generation adds the outcomes of its federates to a result, one by one. What a step adds does not
depend on what is there already, so a run is made up of the runs of its federates.

* `GenerationResult.append_add`, `generate_append`: a step, and a run, behind another result.
* `generate_middle`, `generate_eq_flatMap`: a run by its federates, each on its own.
* `generate_singleton_of_ok`, `generate_singleton_of_error`: the result of a single federate.
* `hasError_generate_eq_false_iff`, `mem_federates_generate_iff`: when no federate fails, and which
  classes there are.
* **`generate_isolated`**: a result is made up of the results of its federates, each on its own, and
  each of these is either the classes of the federate or one error about it.
-/

namespace ReactorSynth

namespace GenerationResult

/-- One result behind another. -/
instance : Append GenerationResult where
  append a b :=
    ⟨a.federates ++ b.federates, a.diagnostics ++ b.diagnostics, a.hasError || b.hasError⟩

@[simp] theorem federates_append (a b : GenerationResult) :
    (a ++ b).federates = a.federates ++ b.federates := rfl

@[simp] theorem diagnostics_append (a b : GenerationResult) :
    (a ++ b).diagnostics = a.diagnostics ++ b.diagnostics := rfl

@[simp] theorem hasError_append (a b : GenerationResult) :
    (a ++ b).hasError = (a.hasError || b.hasError) := rfl

theorem append_empty (a : GenerationResult) : a ++ ({} : GenerationResult) = a :=
  GenerationResult.ext (List.append_nil _) (List.append_nil _) (Bool.or_false _)

theorem append_assoc (a b c : GenerationResult) : a ++ b ++ c = a ++ (b ++ c) :=
  GenerationResult.ext (List.append_assoc _ _ _) (List.append_assoc _ _ _) (Bool.or_assoc _ _ _)

/-- A step does the same behind another result. -/
theorem append_add (a b : GenerationResult) (f : Federate)
    (expanded : Except GenError ExpandedClasses) :
    (a ++ b).add f expanded = a ++ b.add f expanded := by
  cases expanded with
  | ok classes => exact GenerationResult.ext (List.append_assoc _ _ _) rfl rfl
  | error e => exact GenerationResult.ext rfl (List.append_assoc _ _ _) (Bool.or_true _).symm

end GenerationResult

variable {p q : Program} {t u : InstanceTree} {emitter : ClassEmitter} {options : Options}
  {fs : List Federate} {f : Federate}

/-- The fingerprint of a text is the only text that is its SHA-256 digest. -/
theorem isHexDigest_iff_eq_fingerprint {text digest : String} :
    Sha256.IsHexDigest text.toUTF8.toList digest ↔ digest = fingerprint text :=
  Sha256.isHexDigest_iff

example : fingerprint "" =
    "e3b0c44298fc1c149afbf4c8996fb92427ae41e4649b934ca495991b7852b855" := by decide +kernel

/-- A run does the same behind another result. -/
theorem generate_append (p : Program) (t : InstanceTree) (fs gs : List Federate)
    (emitter : ClassEmitter) (options : Options) :
    generate p t (fs ++ gs) emitter options =
      generate p t fs emitter options ++ generate p t gs emitter options := by
  let step (r : GenerationResult) (f : Federate) : GenerationResult :=
    r.add f (Expansion.expandClasses ⟨p, t, f, emitter, options⟩)
  have hrun : ∀ (a b : GenerationResult) (gs : List Federate),
      gs.foldl step (a ++ b) = a ++ gs.foldl step b := by
    intro a b gs
    induction gs generalizing b with
    | nil => rfl
    | cons g gs ih =>
      have hstep : step (a ++ b) g = a ++ step b g := a.append_add b g _
      rw [List.foldl_cons, List.foldl_cons, hstep, ih]
  have hresume := hrun (generate p t fs emitter options) {} gs
  rw [GenerationResult.append_empty] at hresume
  exact (List.foldl_append ..).trans hresume

theorem generate_singleton_of_ok {out : ExpandedClasses}
    (h : Expansion.expandClasses ⟨p, t, f, emitter, options⟩ = .ok out) :
    generate p t [f] emitter options =
      ⟨[⟨f.name, out.source, out.classNames, fingerprint out.source⟩], [], false⟩ :=
  congrArg (GenerationResult.add {} f) h

theorem generate_singleton_of_error {e : GenError}
    (h : Expansion.expandClasses ⟨p, t, f, emitter, options⟩ = .error e) :
    generate p t [f] emitter options = ⟨[], [e.toDiagnostic.withSubject f.name], true⟩ :=
  congrArg (GenerationResult.add {} f) h

theorem generate_cons (p : Program) (t : InstanceTree) (f : Federate) (fs : List Federate)
    (emitter : ClassEmitter) (options : Options) :
    generate p t (f :: fs) emitter options =
      generate p t [f] emitter options ++ generate p t fs emitter options :=
  generate_append p t [f] fs emitter options

/-- A federate adds its own outcome between those of the federates before and after it. -/
theorem generate_middle (p : Program) (t : InstanceTree) (before : List Federate) (f : Federate)
    (after : List Federate) (emitter : ClassEmitter) (options : Options) :
    generate p t (before ++ f :: after) emitter options =
      generate p t before emitter options ++ generate p t [f] emitter options ++
        generate p t after emitter options := by
  rw [generate_append, generate_cons, GenerationResult.append_assoc]

/-- Federates of the same names that expand alike have the same results. -/
theorem generate_map_congr {α : Type} {ls : List α} {a b : α → Federate}
    (hname : ∀ l ∈ ls, (b l).name = (a l).name)
    (hexpand : ∀ l ∈ ls, Expansion.expandClasses ⟨q, u, b l, emitter, options⟩ =
      Expansion.expandClasses ⟨p, t, a l, emitter, options⟩) :
    generate q u (ls.map b) emitter options = generate p t (ls.map a) emitter options := by
  unfold generate
  rw [List.foldl_map, List.foldl_map]
  refine List.foldl_ext _ _ _ fun r l hl => ?_
  rw [hexpand l hl]
  unfold GenerationResult.add
  rw [hname l hl]

/-- Generation is free of errors iff every federate has its classes. -/
theorem hasError_generate_eq_false_iff :
    (generate p t fs emitter options).hasError = false ↔
      ∀ f ∈ fs, ∃ out, Expansion.expandClasses ⟨p, t, f, emitter, options⟩ = .ok out := by
  induction fs with
  | nil => exact ⟨fun _ _ hf => absurd hf List.not_mem_nil, fun _ => rfl⟩
  | cons f fs ih =>
    rw [generate_cons, GenerationResult.hasError_append, Bool.or_eq_false_iff, ih,
      List.forall_mem_cons]
    refine and_congr ?_ Iff.rfl
    cases h : Expansion.expandClasses ⟨p, t, f, emitter, options⟩ with
    | ok out => simp [generate_singleton_of_ok h]
    | error e => simp [generate_singleton_of_error h]

/-- The entries are those of the federates that have their classes. -/
theorem mem_federates_generate_iff {entry : FederateClasses} :
    entry ∈ (generate p t fs emitter options).federates ↔
      ∃ f ∈ fs, ∃ out, Expansion.expandClasses ⟨p, t, f, emitter, options⟩ = .ok out ∧
        entry = ⟨f.name, out.source, out.classNames, fingerprint out.source⟩ := by
  induction fs with
  | nil => simp [generate]
  | cons f fs ih =>
    rw [generate_cons, GenerationResult.federates_append, List.mem_append, ih]
    simp only [List.mem_cons, exists_eq_or_imp]
    refine or_congr ?_ Iff.rfl
    cases h : Expansion.expandClasses ⟨p, t, f, emitter, options⟩ with
    | ok out => simp [generate_singleton_of_ok h]
    | error e => simp [generate_singleton_of_error h]

/-! ## Isolation -/

/-- An expansion has classes iff the walk of its whole tree, from no classes written, has a text. -/
theorem expandClasses_eq_ok_iff {x : Expansion} {out : ExpandedClasses} :
    x.expandClasses = .ok out ↔
      (x.expandSubtree x.tree).outcome {} = (.ok out.source, ⟨out.classNames⟩) := by
  have hrun : x.expandClasses = ((x.expandSubtree x.tree).outcome {}).1.map fun source =>
      ⟨source, ((x.expandSubtree x.tree).outcome {}).2.names⟩ := rfl
  rw [hrun]
  cases (x.expandSubtree x.tree).outcome {} with
  | mk result s =>
    obtain ⟨source, names⟩ := out
    obtain ⟨written⟩ := s
    cases result <;> simp [Except.map]

/-- The run over the federates comes to the same as treating each of them on its own. -/
theorem generate_eq_flatMap (p : Program) (t : InstanceTree) (fs : List Federate)
    (emitter : ClassEmitter) (options : Options) :
    generate p t fs emitter options =
      ⟨fs.flatMap fun f => (generate p t [f] emitter options).federates,
        fs.flatMap fun f => (generate p t [f] emitter options).diagnostics,
        fs.any fun f => (generate p t [f] emitter options).hasError⟩ := by
  induction fs with
  | nil => rfl
  | cons f fs ih =>
    rw [generate_cons, ih, List.flatMap_cons, List.flatMap_cons, List.any_cons]
    rfl

/-- The result of a single federate is its entry alone, or a single diagnostic. -/
theorem generate_singleton_cases (p : Program) (t : InstanceTree) (f : Federate)
    (emitter : ClassEmitter) (options : Options) :
    (∃ entry, generate p t [f] emitter options = ⟨[entry], [], false⟩) ∨
      ∃ d, generate p t [f] emitter options = ⟨[], [d], true⟩ := by
  cases h : Expansion.expandClasses ⟨p, t, f, emitter, options⟩ with
  | ok out => exact Or.inl ⟨_, generate_singleton_of_ok h⟩
  | error e => exact Or.inr ⟨_, generate_singleton_of_error h⟩

/-- Each federate adds either one entry or one diagnostic. -/
theorem length_generate (p : Program) (t : InstanceTree) (fs : List Federate)
    (emitter : ClassEmitter) (options : Options) :
    (generate p t fs emitter options).federates.length +
      (generate p t fs emitter options).diagnostics.length = fs.length := by
  induction fs with
  | nil => rfl
  | cons f fs ih =>
    rw [generate_cons, GenerationResult.federates_append, GenerationResult.diagnostics_append,
      List.length_append, List.length_append, List.length_cons]
    rcases generate_singleton_cases p t f emitter options with ⟨entry, h⟩ | ⟨d, h⟩
    · rw [h, List.length_singleton, List.length_nil]
      omega
    · rw [h, List.length_singleton, List.length_nil]
      omega

/-- The flag for errors is set together with the first diagnostic. -/
theorem hasError_generate_iff :
    (generate p t fs emitter options).hasError = true ↔
      (generate p t fs emitter options).diagnostics ≠ [] := by
  induction fs with
  | nil => simp [generate]
  | cons f fs ih =>
    rw [generate_cons, GenerationResult.hasError_append, GenerationResult.diagnostics_append]
    rcases generate_singleton_cases p t f emitter options with ⟨entry, h⟩ | ⟨d, h⟩
    · rw [h, Bool.false_or, List.nil_append, ih]
    · simp [h]

/-- Federates do not affect each other. The result of some federates followed by others is the two
results one behind the other; the result of a single federate is either the classes that its own
expansion writes from none, with the SHA-256 digest of their text, or one error about it; and so the
entries and the diagnostics of any result are those of the single federates, in their order, as many
together as there are federates, with an error iff there is a diagnostic at all. -/
theorem generate_isolated (p : Program) (t : InstanceTree) (emitter : ClassEmitter)
    (options : Options) :
    (∀ fs gs, (generate p t (fs ++ gs) emitter options).federates =
          (generate p t fs emitter options).federates ++
            (generate p t gs emitter options).federates ∧
        (generate p t (fs ++ gs) emitter options).diagnostics =
          (generate p t fs emitter options).diagnostics ++
            (generate p t gs emitter options).diagnostics ∧
        (generate p t (fs ++ gs) emitter options).hasError =
          ((generate p t fs emitter options).hasError ||
            (generate p t gs emitter options).hasError)) ∧
    (∀ f, (∃ source names digest,
          (Expansion.expandSubtree ⟨p, t, f, emitter, options⟩ t).outcome {} =
              (.ok source, ⟨names⟩) ∧
            Expansion.expandClasses ⟨p, t, f, emitter, options⟩ = .ok ⟨source, names⟩ ∧
            (∀ text, Sha256.IsHexDigest source.toUTF8.toList text ↔ text = digest) ∧
            generate p t [f] emitter options = ⟨[⟨f.name, source, names, digest⟩], [], false⟩) ∨
        ∃ e d, Expansion.expandClasses ⟨p, t, f, emitter, options⟩ = .error e ∧
          generate p t [f] emitter options = ⟨[], [d], true⟩ ∧ d.severity = .error ∧
            d.message = e.message ∧ d.subject = some f.name) ∧
    ∀ fs, (generate p t fs emitter options).federates =
          fs.flatMap (fun f => (generate p t [f] emitter options).federates) ∧
        (generate p t fs emitter options).diagnostics =
          fs.flatMap (fun f => (generate p t [f] emitter options).diagnostics) ∧
        (generate p t fs emitter options).federates.length +
          (generate p t fs emitter options).diagnostics.length = fs.length ∧
        ((generate p t fs emitter options).hasError = true ↔
          (generate p t fs emitter options).diagnostics ≠ []) := by
  refine ⟨fun fs gs => ?_, fun f => ?_, fun fs => ?_⟩
  · rw [generate_append]
    exact ⟨rfl, rfl, rfl⟩
  · cases h : Expansion.expandClasses ⟨p, t, f, emitter, options⟩ with
    | ok out =>
      exact Or.inl ⟨out.source, out.classNames, _, expandClasses_eq_ok_iff.mp h, rfl,
        fun _ => isHexDigest_iff_eq_fingerprint, generate_singleton_of_ok h⟩
    | error e => exact Or.inr ⟨e, _, rfl, generate_singleton_of_error h, rfl, rfl, rfl⟩
  · refine ⟨?_, ?_, length_generate p t fs emitter options, hasError_generate_iff⟩
    · rw [generate_eq_flatMap]
    · rw [generate_eq_flatMap]

end ReactorSynth
