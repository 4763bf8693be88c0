import ReactorSynth.Program.Decode
import ReactorSynth.Proofs.Revisions

/-!
# The readers of a program

Each reader of a part of a program reads the part from every revision of its JSON value that is not
damaged, and reads nothing from one that is (`ReadsRevised`). The format that goes with the reader
says which fields are looked for, and what is made of those that are not given.

* `TimeValue.readsRevised`, `Value.readsRevised`, `DataType.readsRevised`, `Width.readsRevised`: the
  readers of values and types. List types are read by recursion on the type.
* `Reaction.readsRevised`, `Reactor.readsRevised` and those before them: the readers of
  declarations.
* `Program.readsRevised`: the reader of programs.
-/

namespace ReactorSynth

open Decoder

/-! ## Readers of parts -/

namespace Decoder

theorem readsRevised_string : string.ReadsRevised Json.string .atom := .atom reads_string

theorem readsRevised_bool : bool.ReadsRevised Json.bool .atom := .atom reads_bool

theorem list_null {α : Type} (decode : Decoder α) (levels : Nat) :
    list decode levels .null = none := by
  cases levels <;> rfl

theorem enumeration_null {α : Type} (alternatives : List (String × α)) (levels : Nat) :
    enumeration alternatives levels .null = none := by
  cases levels <;> rfl

end Decoder

/-! ## Values and types -/

theorem TimeUnit.readsRevised : TimeUnit.decode.ReadsRevised TimeUnit.encode .atom :=
  .atom (reads_enumeration fun u => by cases u <;> rfl)

theorem TimeValue.readsRevised :
    TimeValue.decode.ReadsRevised TimeValue.encode (.record .timeValue) where
  encode_revised _ :=
    .of_writes <| .cons (ReadsRevised.atom reads_int64).writes <|
      .cons TimeUnit.readsRevised.writes .nil
  decode_eq {levels t damaged j} hdepth h := by
    obtain ⟨fields, rfl, hrecord, hfields⟩ := h.record_eq ["magnitude", "unit"] rfl hdepth
    obtain _ | ⟨hmagnitude, _ | ⟨hunit, _ | _⟩⟩ := hfields
    have hmagnitude := hmagnitude.required (.atom reads_int64)
    have hunit := hunit.required TimeUnit.readsRevised
    rw [decode, hrecord]
    simp [hmagnitude, hunit]

theorem Value.readsRevised : Value.decode.ReadsRevised Value.encode .value where
  encode_revised v := by
    cases v with
    | time t => exact .content rfl (TimeValue.readsRevised.encode_revised t)
    | parameter name => exact .content rfl (.atom _)
    | literal text => exact .content rfl (.atom _)
  decode_eq {levels v damaged j} hdepth h := by
    cases v with
    | time t =>
      obtain ⟨m, content, hchoice, hcontent, hrevised⟩ := choice_eq_of_revised rfl hdepth h
      rw [decode, hchoice]
      simp [TimeValue.readsRevised.decode_eq hcontent hrevised]
    | parameter name =>
      obtain ⟨m, content, hchoice, hcontent, hrevised⟩ := choice_eq_of_revised rfl hdepth h
      rw [decode, hchoice]
      simp [readsRevised_string.decode_eq hcontent hrevised]
    | literal text =>
      obtain ⟨m, content, hchoice, hcontent, hrevised⟩ := choice_eq_of_revised rfl hdepth h
      rw [decode, hchoice]
      simp [readsRevised_string.decode_eq hcontent hrevised]

theorem Value.encode_ne_null (v : Value) : v.encode ≠ .null := by cases v <;> simp [encode]

theorem DataType.revised_encode (t : DataType) : Revised .type false t.encode t.encode := by
  induction t with
  | time => exact .name "time"
  | code text => exact .content rfl (.atom _)
  | list element size ih =>
    refine .content rfl (.of_writes <| .cons ⟨rfl, .kept ih⟩ <| .cons ?_ .nil)
    exact (ReadsRevised.atom reads_uint64).writes_option

/-- Types are read from their revisions; each list type takes the two levels that its text enters. -/
theorem DataType.decode_eq_of_revised {levels : Nat} {t : DataType} {damaged : Bool} {j : Json}
    (hdepth : t.encode.depth ≤ levels) (h : Revised .type damaged t.encode j) :
    decode levels j = unlessDamaged damaged t := by
  induction t generalizing levels damaged j with
  | time =>
    cases h
    cases levels <;> rfl
  | code text =>
    obtain ⟨m, rfl, -⟩ := Json.depth_object_le_iff.mp hdepth
    cases h with
    | content hformat h =>
      obtain rfl := Option.some.inj hformat
      cases h
      rfl
  | list element size ih =>
    obtain ⟨m, rfl, hcontent⟩ := Json.depth_object_le_iff.mp hdepth
    cases h with
    | content hformat h =>
      obtain rfl := Option.some.inj hformat
      obtain ⟨fields, rfl, hrecord, hfields⟩ :=
        h.record_eq ["element", "size"] rfl (hcontent _ List.mem_cons_self)
      obtain _ | ⟨helement, _ | ⟨hsize, _ | _⟩⟩ := hfields
      have helement : fields.required "element" (fun _ => decodeWith record fields.levels) =
          unlessDamaged _ element := helement.required_of_value ih
      have hsize : fields.nullable "size" uint64 = unlessDamaged _ size :=
        hsize.nullable (.atom reads_uint64) fun _ => Json.noConfusion
      change (do
        let fields' ← record ["element", "size"] (fields.levels + 1) _
        let element ← fields'.required "element" fun _ => decodeWith record fields.levels
        let size ← fields'.nullable "size" uint64
        return list element size) = _
      rw [hrecord]
      simp [helement, hsize]

theorem DataType.encode_ne_null (t : DataType) : t.encode ≠ .null := by cases t <;> simp [encode]

theorem DataType.readsRevised : DataType.decode.ReadsRevised DataType.encode .type :=
  ⟨revised_encode, decode_eq_of_revised⟩

-- For any content, since the bound of the number is no matter of the choice and must not be unfolded
-- with it.
theorem WidthTerm.decode_literal {levels m : Nat} {j content : Json}
    (h : choice levels j = some (m, "literal", content)) :
    decode levels j = (uint32 m content).map literal := by
  rw [decode, h]
  rfl

theorem WidthTerm.readsRevised : WidthTerm.decode.ReadsRevised WidthTerm.encode .widthTerm where
  encode_revised w := by
    cases w with
    | literal width => exact .content rfl (.atom _)
    | parameter name => exact .content rfl (.atom _)
  decode_eq {levels w damaged j} hdepth h := by
    cases w with
    | literal width =>
      obtain ⟨m, content, hchoice, hcontent, hrevised⟩ := choice_eq_of_revised rfl hdepth h
      rw [decode_literal hchoice, (ReadsRevised.atom reads_uint32).decode_eq hcontent hrevised,
        map_unlessDamaged]
    | parameter name =>
      obtain ⟨m, content, hchoice, hcontent, hrevised⟩ := choice_eq_of_revised rfl hdepth h
      rw [decode, hchoice]
      simp [readsRevised_string.decode_eq hcontent hrevised]

theorem Width.readsRevised : Width.decode.ReadsRevised Width.encode (.record .width) where
  encode_revised _ := .of_writes <| .cons (ReadsRevised.list WidthTerm.readsRevised).writes .nil
  decode_eq {levels w damaged j} hdepth h := by
    obtain ⟨fields, rfl, hrecord, hfields⟩ := h.record_eq ["terms"] rfl hdepth
    obtain _ | ⟨hterms, _ | _⟩ := hfields
    have hterms := hterms.required (.list WidthTerm.readsRevised)
    rw [decode, hrecord]
    simp [hterms]

theorem Width.encode_ne_null (w : Width) : w.encode ≠ .null := Json.noConfusion

/-! ## Declarations -/

theorem Parameter.readsRevised :
    Parameter.decode.ReadsRevised Parameter.encode (.record .parameter) where
  encode_revised _ :=
    .of_writes <| .cons readsRevised_string.writes <|
      .cons DataType.readsRevised.writes_option <|
      .cons (ReadsRevised.list Value.readsRevised).writes .nil
  decode_eq {levels p damaged j} hdepth h := by
    obtain ⟨fields, rfl, hrecord, hfields⟩ := h.record_eq ["name", "ty", "init"] rfl hdepth
    obtain _ | ⟨hname, _ | ⟨htype, _ | ⟨hinit, _ | _⟩⟩⟩ := hfields
    have hname := hname.required readsRevised_string
    have htype := htype.optional DataType.readsRevised DataType.encode_ne_null
    have hinit : fields.withDefault "init" [] (list Value.decode) = unlessDamaged _ p.init :=
      hinit.withDefault (.list Value.readsRevised) (list_null _)
    rw [decode, decodeWith, hrecord]
    simp [hname, htype, hinit]

theorem StateVar.readsRevised :
    StateVar.decode.ReadsRevised StateVar.encode (.record .stateVar) where
  encode_revised _ :=
    .of_writes <| .cons readsRevised_string.writes <|
      .cons DataType.readsRevised.writes_option <|
      .cons (ReadsRevised.list Value.readsRevised).writes .nil
  decode_eq {levels s damaged j} hdepth h := by
    obtain ⟨fields, rfl, hrecord, hfields⟩ := h.record_eq ["name", "ty", "init"] rfl hdepth
    obtain _ | ⟨hname, _ | ⟨htype, _ | ⟨hinit, _ | _⟩⟩⟩ := hfields
    have hname := hname.required readsRevised_string
    have htype := htype.optional DataType.readsRevised DataType.encode_ne_null
    have hinit : fields.withDefault "init" [] (list Value.decode) = unlessDamaged _ s.init :=
      hinit.withDefault (.list Value.readsRevised) (list_null _)
    rw [decode, hrecord]
    simp [hname, htype, hinit]

theorem Direction.readsRevised :
    Direction.decode.ReadsRevised (fun d => .string d.jsonName) .atom :=
  .atom (reads_enumeration fun d => by cases d <;> rfl)

theorem Port.readsRevised : Port.decode.ReadsRevised Port.encode (.record .port) where
  encode_revised _ :=
    .of_writes <| .cons readsRevised_string.writes <| .cons Direction.readsRevised.writes <|
      .cons DataType.readsRevised.writes_option <| .cons Width.readsRevised.writes_option .nil
  decode_eq {levels p damaged j} hdepth h := by
    obtain ⟨fields, rfl, hrecord, hfields⟩ :=
      h.record_eq ["name", "direction", "ty", "width"] rfl hdepth
    obtain _ | ⟨hname, _ | ⟨hdirection, _ | ⟨htype, _ | ⟨hwidth, _ | _⟩⟩⟩⟩ := hfields
    have hname := hname.required readsRevised_string
    have hdirection := hdirection.required Direction.readsRevised
    have htype := htype.optional DataType.readsRevised DataType.encode_ne_null
    have hwidth := hwidth.optional Width.readsRevised Width.encode_ne_null
    rw [decode, hrecord]
    simp [hname, hdirection, htype, hwidth]

theorem Origin.readsRevised :
    Origin.decode.ReadsRevised (fun o => .string o.jsonName) .atom :=
  .atom (reads_enumeration fun o => by cases o <;> rfl)

theorem Action.readsRevised : Action.decode.ReadsRevised Action.encode (.record .action) where
  encode_revised _ :=
    .of_writes <| .cons readsRevised_string.writes <| .cons Origin.readsRevised.writes <|
      .cons DataType.readsRevised.writes_option .nil
  decode_eq {levels a damaged j} hdepth h := by
    obtain ⟨fields, rfl, hrecord, hfields⟩ := h.record_eq ["name", "origin", "ty"] rfl hdepth
    obtain _ | ⟨hname, _ | ⟨horigin, _ | ⟨htype, _ | _⟩⟩⟩ := hfields
    have hname := hname.required readsRevised_string
    have horigin : fields.withDefault "origin" .logical Origin.decode =
        unlessDamaged _ a.origin :=
      horigin.withDefault Origin.readsRevised (enumeration_null _)
    have htype := htype.optional DataType.readsRevised DataType.encode_ne_null
    rw [decode, hrecord]
    simp [hname, horigin, htype]

theorem Timer.readsRevised : Timer.decode.ReadsRevised Timer.encode (.record .timer) where
  encode_revised _ :=
    .of_writes <| .cons readsRevised_string.writes <| .cons Value.readsRevised.writes_option <|
      .cons Value.readsRevised.writes_option .nil
  decode_eq {levels t damaged j} hdepth h := by
    obtain ⟨fields, rfl, hrecord, hfields⟩ := h.record_eq ["name", "offset", "period"] rfl hdepth
    obtain _ | ⟨hname, _ | ⟨hoffset, _ | ⟨hperiod, _ | _⟩⟩⟩ := hfields
    have hname := hname.required readsRevised_string
    have hoffset := hoffset.optional Value.readsRevised Value.encode_ne_null
    have hperiod := hperiod.optional Value.readsRevised Value.encode_ne_null
    rw [decode, hrecord]
    simp [hname, hoffset, hperiod]

theorem VarRef.readsRevised : VarRef.decode.ReadsRevised VarRef.encode (.record .varRef) where
  encode_revised _ :=
    .of_writes <| .cons readsRevised_string.writes_option <| .cons readsRevised_string.writes .nil
  decode_eq {levels r damaged j} hdepth h := by
    obtain ⟨fields, rfl, hrecord, hfields⟩ := h.record_eq ["container", "variable"] rfl hdepth
    obtain _ | ⟨hcontainer, _ | ⟨hname, _ | _⟩⟩ := hfields
    have hcontainer := hcontainer.optional readsRevised_string fun _ => Json.noConfusion
    have hname := hname.required readsRevised_string
    rw [decode, hrecord]
    simp [hcontainer, hname]

theorem Reaction.readsRevised :
    Reaction.decode.ReadsRevised Reaction.encode (.record .reaction) where
  encode_revised _ :=
    .of_writes <| .cons (ReadsRevised.list VarRef.readsRevised).writes <|
      .cons (ReadsRevised.list VarRef.readsRevised).writes <|
      .cons (ReadsRevised.list VarRef.readsRevised).writes <|
      .cons readsRevised_string.writes <| .cons readsRevised_string.writes_option .nil
  decode_eq {levels r damaged j} hdepth h := by
    obtain ⟨fields, rfl, hrecord, hfields⟩ :=
      h.record_eq ["triggers", "sources", "effects", "code", "label"] rfl hdepth
    obtain _ | ⟨htriggers, _ | ⟨hsources, _ | ⟨heffects, _ | ⟨hcode, _ | ⟨hlabel, _ | _⟩⟩⟩⟩⟩ :=
      hfields
    have htriggers : fields.withDefault "triggers" [] (list VarRef.decode) =
        unlessDamaged _ r.triggers :=
      htriggers.withDefault (.list VarRef.readsRevised) (list_null _)
    have hsources : fields.withDefault "sources" [] (list VarRef.decode) =
        unlessDamaged _ r.sources :=
      hsources.withDefault (.list VarRef.readsRevised) (list_null _)
    have heffects : fields.withDefault "effects" [] (list VarRef.decode) =
        unlessDamaged _ r.effects :=
      heffects.withDefault (.list VarRef.readsRevised) (list_null _)
    have hcode : fields.withDefault "code" "" string = unlessDamaged _ r.code :=
      hcode.withDefault readsRevised_string fun _ => rfl
    have hlabel := hlabel.optional readsRevised_string fun _ => Json.noConfusion
    rw [decode, hrecord]
    simp [htriggers, hsources, heffects, hcode, hlabel]

theorem Instantiation.readsRevised_assignment :
    (pair string (list Value.decode)).ReadsRevised encodeAssignment (.pair .atom (.list .value)) :=
  .pair readsRevised_string (.list Value.readsRevised)

theorem Instantiation.readsRevised :
    Instantiation.decode.ReadsRevised Instantiation.encode (.record .instantiation) where
  encode_revised _ :=
    .of_writes <| .cons readsRevised_string.writes <| .cons readsRevised_string.writes <|
      .cons Width.readsRevised.writes_option <|
      .cons (ReadsRevised.list readsRevised_assignment).writes .nil
  decode_eq {levels i damaged j} hdepth h := by
    obtain ⟨fields, rfl, hrecord, hfields⟩ :=
      h.record_eq ["name", "reactor_class", "width", "parameters"] rfl hdepth
    obtain _ | ⟨hname, _ | ⟨hclass, _ | ⟨hwidth, _ | ⟨hparameters, _ | _⟩⟩⟩⟩ := hfields
    have hname := hname.required readsRevised_string
    have hclass := hclass.required readsRevised_string
    have hwidth := hwidth.optional Width.readsRevised Width.encode_ne_null
    have hparameters :
        fields.withDefault "parameters" [] (list (pair string (list Value.decode))) =
          unlessDamaged _ i.parameters :=
      hparameters.withDefault (.list readsRevised_assignment) (list_null _)
    rw [decode, hrecord]
    simp [hname, hclass, hwidth, hparameters]

theorem Reactor.readsRevised : Reactor.decode.ReadsRevised Reactor.encode (.record .reactor) where
  encode_revised _ :=
    .of_writes <| .cons readsRevised_string.writes <| .cons readsRevised_bool.writes <|
      .cons readsRevised_bool.writes <| .cons (ReadsRevised.list readsRevised_string).writes <|
      .cons (ReadsRevised.list Parameter.readsRevised).writes <|
      .cons (ReadsRevised.list StateVar.readsRevised).writes <|
      .cons (ReadsRevised.list Port.readsRevised).writes <|
      .cons (ReadsRevised.list Action.readsRevised).writes <|
      .cons (ReadsRevised.list Timer.readsRevised).writes <|
      .cons (ReadsRevised.list Reaction.readsRevised).writes <|
      .cons (ReadsRevised.list Instantiation.readsRevised).writes .nil
  decode_eq {levels r damaged j} hdepth h := by
    obtain ⟨fields, rfl, hrecord, hfields⟩ :=
      h.record_eq ["name", "is_main", "is_federated", "preambles", "parameters", "state_vars",
        "ports", "actions", "timers", "reactions", "instantiations"] rfl hdepth
    obtain _ | ⟨hname, _ | ⟨hmain, _ | ⟨hfederated, _ | ⟨hpreambles, hfields⟩⟩⟩⟩ := hfields
    obtain _ | ⟨hparameters, _ | ⟨hstateVars, _ | ⟨hports, _ | ⟨hactions, hfields⟩⟩⟩⟩ := hfields
    obtain _ | ⟨htimers, _ | ⟨hreactions, _ | ⟨hinstantiations, _ | _⟩⟩⟩ := hfields
    have hname := hname.required readsRevised_string
    have hmain : fields.withDefault "is_main" false bool = unlessDamaged _ r.isMain :=
      hmain.withDefault readsRevised_bool fun _ => rfl
    have hfederated : fields.withDefault "is_federated" false bool =
        unlessDamaged _ r.isFederated :=
      hfederated.withDefault readsRevised_bool fun _ => rfl
    have hpreambles : fields.withDefault "preambles" [] (list string) =
        unlessDamaged _ r.preambles :=
      hpreambles.withDefault (.list readsRevised_string) (list_null _)
    have hparameters : fields.withDefault "parameters" [] (list Parameter.decode) =
        unlessDamaged _ r.parameters :=
      hparameters.withDefault (.list Parameter.readsRevised) (list_null _)
    have hstateVars : fields.withDefault "state_vars" [] (list StateVar.decode) =
        unlessDamaged _ r.stateVars :=
      hstateVars.withDefault (.list StateVar.readsRevised) (list_null _)
    have hports : fields.withDefault "ports" [] (list Port.decode) = unlessDamaged _ r.ports :=
      hports.withDefault (.list Port.readsRevised) (list_null _)
    have hactions : fields.withDefault "actions" [] (list Action.decode) =
        unlessDamaged _ r.actions :=
      hactions.withDefault (.list Action.readsRevised) (list_null _)
    have htimers : fields.withDefault "timers" [] (list Timer.decode) = unlessDamaged _ r.timers :=
      htimers.withDefault (.list Timer.readsRevised) (list_null _)
    have hreactions : fields.withDefault "reactions" [] (list Reaction.decode) =
        unlessDamaged _ r.reactions :=
      hreactions.withDefault (.list Reaction.readsRevised) (list_null _)
    have hinstantiations : fields.withDefault "instantiations" [] (list Instantiation.decode) =
        unlessDamaged _ r.instantiations :=
      hinstantiations.withDefault (.list Instantiation.readsRevised) (list_null _)
    rw [decode, hrecord]
    simp [hname, hmain, hfederated, hpreambles, hparameters, hstateVars, hports, hactions, htimers,
      hreactions, hinstantiations]

/-! ## Programs -/

namespace Program

theorem readsRevised : decode.ReadsRevised Program.encode (.record .program) where
  encode_revised _ := .of_writes <| .cons (ReadsRevised.list Reactor.readsRevised).writes .nil
  decode_eq {levels p damaged j} hdepth h := by
    obtain ⟨fields, rfl, hrecord, hfields⟩ := h.record_eq ["reactors"] rfl hdepth
    obtain _ | ⟨hreactors, _ | _⟩ := hfields
    have hreactors := hreactors.required (.list Reactor.readsRevised)
    rw [decode, hrecord]
    simp [hreactors]

end Program

end ReactorSynth
