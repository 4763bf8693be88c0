import ReactorSynth.Proofs.ProgramText

/-!
# Reading revised programs

* **`Program.decode_revised`**: a program is read from any revision of its JSON value as the program
  that was written, and nothing is read from a damaged one.
-/

namespace ReactorSynth

open Decoder

namespace Program

/-- **A program is read from every revision of its JSON value, and from none that is damaged**, if
the value nests at most 127 arrays and objects; the revisions may nest deeper where they add
members. -/
theorem decode_revised {p : Program} (h : p.encode.depth ≤ 127) :
    Json.read? p.toText = some p.encode ∧
      Revised (.record .program) false p.encode p.encode ∧
      (∀ j, Revised (.record .program) false p.encode j → decode nestingLimit j = some p ∧
        ∀ text, Json.read? text = some j → ofText? text = some p) ∧
      (∀ j, Revised (.record .program) true p.encode j → decode nestingLimit j = none ∧
        ∀ text, Json.read? text = some j → ofText? text = none) := by
  have hdecode : ∀ {damaged j}, Revised (.record .program) damaged p.encode j →
      decode nestingLimit j = unlessDamaged damaged p := readsRevised.decode_eq h
  refine ⟨Json.read?_print p.isPlain_encode, readsRevised.encode_revised p, ?_, ?_⟩
  · intro j hj
    refine ⟨hdecode hj, fun text htext => ?_⟩
    rw [ofText?, htext]
    exact hdecode hj
  · intro j hj
    refine ⟨hdecode hj, fun text htext => ?_⟩
    rw [ofText?, htext]
    exact hdecode hj

/-- A main reactor with a list of times as its only parameter. -/
def sampler : Program where
  reactors :=
    [{ name := "Main"
       isMain := true
       parameters :=
         [{ name := "periods", type := some (.list .time none), init := [.time ⟨100, .msec⟩] }] }]

/-- The parameter of the sampler with no more fields than it needs, and in another order; its
initial values are given. -/
def sparsePeriods (init : Json) : Json :=
  .object
    [("init", init), ("ty", .object [("list", .object [("element", .string "time")])]),
     ("name", .string "periods")]

/-- The reactor of the sampler with no more fields than it needs, and one that is not known. -/
def sparseMain (init : Json) : Json :=
  .object
    [("is_main", .bool true), ("note", .null), ("parameters", .array [sparsePeriods init]),
     ("name", .string "Main")]

/-- The sampler with no more fields than it needs, and one that is not known. -/
def sparseSampler (init : Json) : Json :=
  .object [("version", .array [.nat 1]), ("reactors", .array [sparseMain init])]

/-- The sampler is damaged if its initial values are. -/
theorem revised_sparseSampler {damaged : Bool} {init : Json}
    (h : RevisedField ⟨"init", .defaulted (.array []), .list .value⟩ damaged
      (.ofList Value.encode [.time ⟨100, .msec⟩]) (some init)) :
    Revised (.record .program) damaged sampler.encode (sparseSampler init) := by
  have htype : Revised .type false (DataType.list .time none).encode
      (.object [("list", .object [("element", .string "time")])]) :=
    .content rfl <| Revised.record_iff.mpr ⟨by decide,
      .cons_right (.kept (.name _)) <| .cons_right (.omitted rfl) .nil⟩
  have hparameter : Revised (.record .parameter) damaged
      (Parameter.encode ⟨"periods", some (.list .time none), [.time ⟨100, .msec⟩]⟩)
      (sparsePeriods init) :=
    Revised.record_iff.mpr ⟨(by decide : ["init", "ty", "name"].Nodup),
      .cons_right (.kept (.atom _)) <| .cons_right (.kept htype) <| .cons_left h .nil⟩
  have hreactor : Revised (.record .reactor) damaged (Reactor.encode sampler.reactors[0])
      (sparseMain init) :=
    Revised.record_iff.mpr ⟨(by decide : ["is_main", "parameters", "name"].Nodup),
      .cons_right (.kept (.atom _)) <| .cons_right (.kept (.atom _)) <|
      .cons_right (.default rfl) <| .cons_right (.default rfl) <|
      .cons_left (.kept (.list (.cons_left hparameter .nil))) <| .cons_right (.default rfl) <|
      .cons_right (.default rfl) <| .cons_right (.default rfl) <| .cons_right (.default rfl) <|
      .cons_right (.default rfl) <| .cons_right (.default rfl) .nil⟩
  exact Revised.record_iff.mpr ⟨(by decide : ["reactors"].Nodup),
    .cons_left (.kept (.list (.cons_left hreactor .nil))) .nil⟩

/-- The only initial value of the sampler, a time with some members. -/
def periodOf (members : List (String × Json)) : Json :=
  .array [.object [("time", .object members)]]

theorem revised_periodOf {damaged : Bool} {members : List (String × Json)}
    (h : Revised (.record .timeValue) damaged (TimeValue.encode ⟨100, .msec⟩) (.object members)) :
    RevisedField ⟨"init", .defaulted (.array []), .list .value⟩ damaged
      (.ofList Value.encode [.time ⟨100, .msec⟩]) (some (periodOf members)) :=
  .kept (.list (.cons_left (.content rfl h) .nil))

/-- The unit of a time may stand before its magnitude, but may not be left out; and initial values
may not be `null`. -/
theorem decode_revised_sampler :
    sampler.encode.depth ≤ 127 ∧
      ofText? (sparseSampler (periodOf
        [("unit", .string "msec"), ("magnitude", .integer 100)])).print = some sampler ∧
      ofText? (sparseSampler (periodOf [("magnitude", .integer 100)])).print = none ∧
      ofText? (sparseSampler .null).print = none := by
  have hdepth : sampler.encode.depth ≤ 127 := by decide +kernel
  obtain ⟨-, -, hrevised, hdamaged⟩ := decode_revised hdepth
  have hturned : Revised (.record .timeValue) false (TimeValue.encode ⟨100, .msec⟩)
      (.object [("unit", .string "msec"), ("magnitude", .integer 100)]) :=
    Revised.record_iff.mpr ⟨by decide,
      .cons_right (.kept (.atom _)) <| .cons_right (.kept (.atom _)) .nil⟩
  have hcut : Revised (.record .timeValue) true (TimeValue.encode ⟨100, .msec⟩)
      (.object [("magnitude", .integer 100)]) :=
    Revised.record_iff.mpr ⟨by decide,
      .cons_right (.kept (.atom _)) <| .cons_left (.missing rfl) .nil⟩
  have hread : ∀ {init : Json}, init.IsPlain →
      Json.read? (sparseSampler init).print = some (sparseSampler init) := fun hinit =>
    Json.read?_print (by simp [sparseSampler, sparseMain, sparsePeriods, hinit])
  have hplain : ∀ {members : List (String × Json)}, (∀ member ∈ members, member.2.IsPlain) →
      (periodOf members).IsPlain := fun h => by simpa [periodOf] using h
  refine ⟨hdepth, ?_, ?_, ?_⟩
  · exact (hrevised _ (revised_sparseSampler (revised_periodOf hturned))).2 _
      (hread (hplain (by simp)))
  · exact (hdamaged _ (revised_sparseSampler (revised_periodOf hcut))).2 _
      (hread (hplain (by simp)))
  · exact (hdamaged _ (revised_sparseSampler (.nulled rfl))).2 _ (hread Json.isPlain_null)

end Program

end ReactorSynth
