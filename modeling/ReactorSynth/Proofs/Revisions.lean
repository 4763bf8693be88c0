import Mathlib.Data.List.Forall2
import Mathlib.Data.List.Nodup
import ReactorSynth.Proofs.Decoding

/-!
# Reading revised data

Data is written with all the fields of its records, in one order. Who writes it by another program
may keep to another order, may leave out the fields that say nothing, and may give fields that are
not known here. `Revised` is what may become of a value in this way, wherever its records stand in
it, and of what may not be done to them: a field that has to be given is left out, or a field that
has a default but is never `null` is set to `null`. A value that is revised in the second way is
damaged.

* `RecordKind.fields`: the records of a program, with what each has to give.
* `Revised.record_iff`: an object is a revision of a record if under each name of a field stands what
  may become of the field; `Revised.record_eq`: so it is read as the fields, however they stand.
* `ReadsRevised`: data is read from its revisions as if they were the value that was written, and
  not at all from those that are damaged. `ReadsRevised.atom`, `ReadsRevised.list` and
  `ReadsRevised.pair` put readers with this law together; `GivenField.required`,
  `GivenField.withDefault`, `GivenField.optional` and `GivenField.nullable` are for the fields of
  records.
-/

namespace ReactorSynth

/-! ## Formats -/

/-- The kinds of records that a program is written in. -/
inductive RecordKind where
  | timeValue
  | listType
  | width
  | parameter
  | stateVar
  | port
  | action
  | timer
  | varRef
  | reaction
  | instantiation
  | reactor
  | program

/-- How a value is put together. -/
inductive Format where
  /-- A text, a number or a truth value. -/
  | atom
  /-- The name of an alternative without content, or an object of a name and a content. -/
  | choice (contents : List (String × Format))
  | list (item : Format)
  | pair (first second : Format)
  | record (kind : RecordKind)

namespace Format

/-- Initial values. -/
def value : Format :=
  choice [("time", record .timeValue), ("parameter", atom), ("literal", atom)]

/-- Types. -/
def type : Format := choice [("code", atom), ("list", record .listType)]

/-- Terms of widths. -/
def widthTerm : Format := choice [("literal", atom), ("parameter", atom)]

end Format

/-- Whether a record has to give a field. -/
inductive Presence where
  /-- The field has to be given. -/
  | required
  /-- The field may be `null`, and may then be left out. -/
  | optional
  /-- The field is never `null`, and may be left out if it holds its default. -/
  | defaulted (default : Json)

/-- A field of a record. If it is optional, its format is that of a value other than `null`. -/
structure RecordField where
  name : String
  presence : Presence
  format : Format

namespace RecordKind

/-- The fields of a record. -/
def fields : RecordKind → List RecordField
  | timeValue => [⟨"magnitude", .required, .atom⟩, ⟨"unit", .required, .atom⟩]
  | listType => [⟨"element", .required, .type⟩, ⟨"size", .optional, .atom⟩]
  | width => [⟨"terms", .required, .list .widthTerm⟩]
  | parameter =>
    [⟨"name", .required, .atom⟩, ⟨"ty", .optional, .type⟩,
     ⟨"init", .defaulted (.array []), .list .value⟩]
  | stateVar =>
    [⟨"name", .required, .atom⟩, ⟨"ty", .optional, .type⟩,
     ⟨"init", .defaulted (.array []), .list .value⟩]
  | port =>
    [⟨"name", .required, .atom⟩, ⟨"direction", .required, .atom⟩, ⟨"ty", .optional, .type⟩,
     ⟨"width", .optional, .record .width⟩]
  | action =>
    [⟨"name", .required, .atom⟩, ⟨"origin", .defaulted (.string "logical"), .atom⟩,
     ⟨"ty", .optional, .type⟩]
  | timer =>
    [⟨"name", .required, .atom⟩, ⟨"offset", .optional, .value⟩, ⟨"period", .optional, .value⟩]
  | varRef => [⟨"container", .optional, .atom⟩, ⟨"variable", .required, .atom⟩]
  | reaction =>
    [⟨"triggers", .defaulted (.array []), .list (.record .varRef)⟩,
     ⟨"sources", .defaulted (.array []), .list (.record .varRef)⟩,
     ⟨"effects", .defaulted (.array []), .list (.record .varRef)⟩,
     ⟨"code", .defaulted (.string ""), .atom⟩, ⟨"label", .optional, .atom⟩]
  | instantiation =>
    [⟨"name", .required, .atom⟩, ⟨"reactor_class", .required, .atom⟩,
     ⟨"width", .optional, .record .width⟩,
     ⟨"parameters", .defaulted (.array []), .list (.pair .atom (.list .value))⟩]
  | reactor =>
    [⟨"name", .required, .atom⟩, ⟨"is_main", .defaulted (.bool false), .atom⟩,
     ⟨"is_federated", .defaulted (.bool false), .atom⟩,
     ⟨"preambles", .defaulted (.array []), .list .atom⟩,
     ⟨"parameters", .defaulted (.array []), .list (.record .parameter)⟩,
     ⟨"state_vars", .defaulted (.array []), .list (.record .stateVar)⟩,
     ⟨"ports", .defaulted (.array []), .list (.record .port)⟩,
     ⟨"actions", .defaulted (.array []), .list (.record .action)⟩,
     ⟨"timers", .defaulted (.array []), .list (.record .timer)⟩,
     ⟨"reactions", .defaulted (.array []), .list (.record .reaction)⟩,
     ⟨"instantiations", .defaulted (.array []), .list (.record .instantiation)⟩]
  | program => [⟨"reactors", .required, .list (.record .reactor)⟩]

/-- The names of the fields of a record. -/
def fieldNames (kind : RecordKind) : List String := kind.fields.map (·.name)

theorem nodup_fieldNames (kind : RecordKind) : kind.fieldNames.Nodup := by cases kind <;> decide

/-- The members that give some of the fields of a record, in the order of the fields. -/
def givenMembers (kind : RecordKind) (given : String → Option Json) : List (String × Json) :=
  kind.fieldNames.filterMap fun name => (given name).map (name, ·)

end RecordKind

/-! ## Revisions -/

mutual

/-- A value of a format becomes another value, by revisions of the records in it, and is damaged or
not. -/
inductive Revised : Format → (damaged : Bool) → Json → Json → Prop
  | atom (j : Json) : Revised .atom false j j
  | name {contents : List (String × Format)} (name : String) :
      Revised (.choice contents) false (.string name) (.string name)
  | content {contents : List (String × Format)} {name : String} {format : Format} {damaged : Bool}
      {j j' : Json} (hformat : contents.lookup name = some format)
      (h : Revised format damaged j j') :
      Revised (.choice contents) damaged (.object [(name, j)]) (.object [(name, j')])
  | list {item : Format} {damaged : Bool} {items items' : List Json}
      (h : RevisedItems item damaged items items') :
      Revised (.list item) damaged (.array items) (.array items')
  | pair {first second : Format} {damaged damaged' : Bool} {a a' b b' : Json}
      (ha : Revised first damaged a a') (hb : Revised second damaged' b b') :
      Revised (.pair first second) (damaged || damaged') (.array [a, b]) (.array [a', b'])
  /-- Each field of the record is given or not, and is revised in itself; members with other names
  are added; and the members come in any order. -/
  | record {kind : RecordKind} {damaged : Bool} {members members' added : List (String × Json)}
      {given : String → Option Json} (h : RevisedFields kind.fields damaged members given)
      (hadded : ∀ member ∈ added, member.1 ∉ kind.fieldNames)
      (hperm : members'.Perm (kind.givenMembers given ++ added)) :
      Revised (.record kind) damaged (.object members) (.object members')

/-- The items of an array become other items, one by one. -/
inductive RevisedItems : Format → (damaged : Bool) → List Json → List Json → Prop
  | nil {item : Format} : RevisedItems item false [] []
  | cons {item : Format} {damaged damaged' : Bool} {j j' : Json} {rest rest' : List Json}
      (h : Revised item damaged j j') (hrest : RevisedItems item damaged' rest rest') :
      RevisedItems item (damaged || damaged') (j :: rest) (j' :: rest')

/-- A field with a value is given with another value, or is not given. -/
inductive RevisedField : RecordField → (damaged : Bool) → Json → Option Json → Prop
  | kept {field : RecordField} {damaged : Bool} {j j' : Json}
      (h : Revised field.format damaged j j') : RevisedField field damaged j (some j')
  | null {field : RecordField} (h : field.presence = .optional) :
      RevisedField field false .null (some .null)
  | omitted {field : RecordField} (h : field.presence = .optional) :
      RevisedField field false .null none
  | default {field : RecordField} {default : Json} (h : field.presence = .defaulted default) :
      RevisedField field false default none
  /-- Damage: the field has to be given. -/
  | missing {field : RecordField} {j : Json} (h : field.presence = .required) :
      RevisedField field true j none
  /-- Damage: the field may not be `null`. -/
  | nulled {field : RecordField} {j default : Json} (h : field.presence = .defaulted default) :
      RevisedField field true j (some .null)

/-- The members that a record is written with, all its fields in their order, are given with other
values or are not given. -/
inductive RevisedFields :
    List RecordField → (damaged : Bool) → List (String × Json) → (String → Option Json) → Prop
  | nil {given : String → Option Json} : RevisedFields [] false [] given
  | cons {field : RecordField} {damaged damaged' : Bool} {j : Json} {fields : List RecordField}
      {members : List (String × Json)} {given : String → Option Json}
      (h : RevisedField field damaged j (given field.name))
      (hrest : RevisedFields fields damaged' members given) :
      RevisedFields (field :: fields) (damaged || damaged') ((field.name, j) :: members) given

end

namespace Revised

variable {format : Format} {damaged : Bool} {j j' : Json}

theorem of_null (h : Revised format damaged .null j') : damaged = false ∧ j' = .null := by
  cases h
  exact ⟨rfl, rfl⟩

theorem ne_null (h : Revised format damaged j j') (hj : j ≠ .null) : j' ≠ .null := by
  cases h with
  | atom => exact hj
  | _ => exact Json.noConfusion

end Revised

/-! ## Revised records -/

/-- In a list where no key stands twice, the members are what is found under their keys. -/
theorem lookup_eq_some_iff_mem {members : List (String × Json)} (h : (members.map (·.1)).Nodup)
    {name : String} {j : Json} : members.lookup name = some j ↔ (name, j) ∈ members := by
  rw [List.lookup_eq_some_iff]
  constructor
  · rintro ⟨before, after, rfl, -⟩
    exact List.mem_append_right before List.mem_cons_self
  · intro hmem
    obtain ⟨before, after, rfl⟩ := List.append_of_mem hmem
    refine ⟨before, after, rfl, fun member hmember => ?_⟩
    rw [List.map_append, List.nodup_append] at h
    have hne : member.1 ≠ name := h.2.2 _ (List.mem_map_of_mem hmember) _ List.mem_cons_self
    exact bne_iff_ne.mpr hne.symm

namespace RecordKind

variable {kind : RecordKind} {given : String → Option Json} {members : List (String × Json)}

/-- The members of an object whose names the record knows. -/
def knownMembers (kind : RecordKind) (members : List (String × Json)) : List (String × Json) :=
  members.filter fun member => kind.fieldNames.contains member.1

theorem mem_knownMembers {member : String × Json} :
    member ∈ kind.knownMembers members ↔ member ∈ members ∧ member.1 ∈ kind.fieldNames := by
  rw [knownMembers, List.mem_filter, List.contains_iff_mem]

theorem lookup_knownMembers {name : String} (h : name ∈ kind.fieldNames) :
    (kind.knownMembers members).lookup name = members.lookup name := by
  induction members with
  | nil => rfl
  | cons member rest ih =>
    obtain ⟨key, j⟩ := member
    rw [knownMembers] at ih ⊢
    by_cases hname : name = key
    · subst hname
      have hknown : kind.fieldNames.contains name = true := List.contains_iff_mem.mpr h
      simp only [List.filter_cons, hknown, if_true, List.lookup_cons_self]
    · have hne : (name == key) = false := beq_eq_false_iff_ne.mpr hname
      rw [List.filter_cons]
      split <;> simp only [List.lookup_cons, hne, ih]

theorem mem_givenMembers {name : String} {j : Json} :
    (name, j) ∈ kind.givenMembers given ↔ name ∈ kind.fieldNames ∧ given name = some j := by
  simp only [givenMembers, List.mem_filterMap, Option.map_eq_some_iff, Prod.mk.injEq]
  constructor
  · rintro ⟨_, hname, _, hj, rfl, rfl⟩
    exact ⟨hname, hj⟩
  · rintro ⟨hname, hj⟩
    exact ⟨name, hname, j, hj, rfl, rfl⟩

theorem nodup_keys_givenMembers : ((kind.givenMembers given).map (·.1)).Nodup := by
  have hkeys : ((kind.givenMembers given).map (·.1)).Sublist kind.fieldNames := by
    rw [givenMembers, List.map_filterMap]
    induction kind.fieldNames with
    | nil => exact List.Sublist.slnil
    | cons name rest ih =>
      cases hgiven : given name with
      | none => simpa [hgiven] using ih.cons name
      | some j => simpa [hgiven] using ih.cons_cons name
  exact kind.nodup_fieldNames.sublist hkeys

/-- If no known name stands twice, the known members are the fields that are found. -/
theorem knownMembers_perm (h : ((kind.knownMembers members).map (·.1)).Nodup) :
    (kind.knownMembers members).Perm (kind.givenMembers fun name => members.lookup name) := by
  refine (List.perm_ext_iff_of_nodup (h.of_map _) (nodup_keys_givenMembers.of_map _)).mpr ?_
  rintro ⟨name, j⟩
  rw [mem_givenMembers, mem_knownMembers]
  refine and_comm.trans (and_congr_right fun hname => ?_)
  rw [← lookup_knownMembers hname, lookup_eq_some_iff_mem h, mem_knownMembers]
  exact (and_iff_left hname).symm

end RecordKind

theorem RevisedItems.cons_left {item : Format} {damaged : Bool} {j j' : Json}
    {rest rest' : List Json} (h : Revised item damaged j j')
    (hrest : RevisedItems item false rest rest') :
    RevisedItems item damaged (j :: rest) (j' :: rest') := by
  rw [← Bool.or_false damaged]
  exact .cons h hrest

namespace RevisedFields

variable {field : RecordField} {fields : List RecordField} {damaged : Bool} {j : Json}
  {members : List (String × Json)} {given : String → Option Json}

theorem cons_left (h : RevisedField field damaged j (given field.name))
    (hrest : RevisedFields fields false members given) :
    RevisedFields (field :: fields) damaged ((field.name, j) :: members) given := by
  rw [← Bool.or_false damaged]
  exact .cons h hrest

theorem cons_right (h : RevisedField field false j (given field.name))
    (hrest : RevisedFields fields damaged members given) :
    RevisedFields (field :: fields) damaged ((field.name, j) :: members) given := by
  rw [← Bool.false_or damaged]
  exact .cons h hrest

theorem congr {given' : String → Option Json} (h : RevisedFields fields damaged members given)
    (hgiven : ∀ field ∈ fields, given' field.name = given field.name) :
    RevisedFields fields damaged members given' := by
  induction fields generalizing damaged members with
  | nil =>
    cases h
    exact .nil
  | cons field rest ih =>
    cases h with
    | cons h hrest =>
      obtain ⟨hname, hgiven⟩ := List.forall_mem_cons.mp hgiven
      exact .cons (hname ▸ h) (ih hrest hgiven)

end RevisedFields

/-- An object is a revision of a record if none of the known names stands in it twice, and what
stands under the name of a field is what may become of the field. -/
theorem Revised.record_iff {kind : RecordKind} {damaged : Bool}
    {members members' : List (String × Json)} :
    Revised (.record kind) damaged (.object members) (.object members') ↔
      ((kind.knownMembers members').map (·.1)).Nodup ∧
        RevisedFields kind.fields damaged members fun name => members'.lookup name := by
  constructor
  · intro h
    cases h with
    | @record _ _ _ _ added given h hadded hperm =>
      have hgiven : kind.knownMembers (kind.givenMembers given) = kind.givenMembers given := by
        rw [RecordKind.knownMembers, List.filter_eq_self]
        rintro ⟨name, j⟩ hmember
        exact List.contains_iff_mem.mpr (RecordKind.mem_givenMembers.mp hmember).1
      have hothers : kind.knownMembers added = [] := by
        rw [RecordKind.knownMembers, List.filter_eq_nil_iff]
        intro member hmember
        rw [List.contains_iff_mem]
        exact hadded member hmember
      have hknown : (kind.knownMembers members').Perm (kind.givenMembers given) := by
        have hfilter := hperm.filter fun member => kind.fieldNames.contains member.1
        rw [List.filter_append] at hfilter
        change (kind.knownMembers members').Perm
          (kind.knownMembers (kind.givenMembers given) ++ kind.knownMembers added) at hfilter
        rwa [hgiven, hothers, List.append_nil] at hfilter
      have hnodup := (hknown.map (·.1)).nodup_iff.mpr RecordKind.nodup_keys_givenMembers
      refine ⟨hnodup, h.congr fun field hfield => Option.ext fun j => ?_⟩
      have hname : field.name ∈ kind.fieldNames := List.mem_map_of_mem hfield
      rw [← RecordKind.lookup_knownMembers hname, lookup_eq_some_iff_mem hnodup, hknown.mem_iff,
        RecordKind.mem_givenMembers]
      exact and_iff_right hname
  · rintro ⟨hnodup, h⟩
    refine .record h (fun member hmember => ?_) (List.Perm.trans
      (List.filter_append_perm (fun member => kind.fieldNames.contains member.1) members').symm
      ((RecordKind.knownMembers_perm hnodup).append_right _))
    rw [← List.contains_iff_mem]
    simpa using (List.mem_filter.mp hmember).2

/-- A member is what a record writes for one of its fields. -/
def RecordField.Writes (field : RecordField) (member : String × Json) : Prop :=
  member.1 = field.name ∧ RevisedField field false member.2 (some member.2)

namespace RecordField

variable {fields : List RecordField} {members : List (String × Json)}

theorem map_fst_of_writes (h : List.Forall₂ Writes fields members) :
    members.map (·.1) = fields.map (·.name) := by
  induction h with
  | nil => rfl
  | cons hfield _ ih => rw [List.map_cons, List.map_cons, hfield.1, ih]

theorem revisedFields_of_writes (h : List.Forall₂ Writes fields members)
    {given : String → Option Json}
    (hgiven : ∀ member ∈ members, given member.1 = some member.2) :
    RevisedFields fields false members given := by
  induction h with
  | nil => exact .nil
  | @cons field member _ _ hfield _ ih =>
    obtain ⟨name, j⟩ := member
    obtain ⟨rfl, hfield⟩ := hfield
    obtain ⟨hfirst, hgiven⟩ := List.forall_mem_cons.mp hgiven
    exact .cons_right (hfirst ▸ hfield) (ih hgiven)

end RecordField

/-- A record that is written with all its fields is a revision of itself. -/
theorem Revised.of_writes {kind : RecordKind} {members : List (String × Json)}
    (h : List.Forall₂ RecordField.Writes kind.fields members) :
    Revised (.record kind) false (.object members) (.object members) := by
  have hnodup : (members.map (·.1)).Nodup := by
    rw [RecordField.map_fst_of_writes h]
    exact kind.nodup_fieldNames
  refine Revised.record_iff.mpr ⟨hnodup.sublist (List.filter_sublist.map _), ?_⟩
  exact RecordField.revisedFields_of_writes h fun _ => (lookup_eq_some_iff_mem hnodup).mpr

namespace Decoder

namespace Fields

/-- The members of an object give what a field with a value has become. -/
structure GivenField (fields : Fields) (field : RecordField) (damaged : Bool) (j : Json) : Prop where
  object : fields.positional = false
  depth_le : j.depth ≤ fields.levels
  revised : RevisedField field damaged j (fields.members.lookup field.name)

/-- The members of an object give what the fields of a record have become. -/
inductive Given (fields : Fields) :
    List RecordField → (damaged : Bool) → List (String × Json) → Prop
  | nil : Given fields [] false []
  | cons {field : RecordField} {damaged damaged' : Bool} {j : Json} {rest : List RecordField}
      {members : List (String × Json)} (h : fields.GivenField field damaged j)
      (hrest : fields.Given rest damaged' members) :
      fields.Given (field :: rest) (damaged || damaged') ((field.name, j) :: members)

theorem given_of_revised {fields : Fields} (hobject : fields.positional = false)
    {described : List RecordField} {damaged : Bool} {members : List (String × Json)}
    (h : RevisedFields described damaged members fun name => fields.members.lookup name)
    (hdepth : ∀ member ∈ members, member.2.depth ≤ fields.levels) :
    fields.Given described damaged members := by
  induction described generalizing damaged members with
  | nil =>
    cases h
    exact .nil
  | cons field rest ih =>
    cases h with
    | cons h hrest =>
      obtain ⟨hfirst, hdepth⟩ := List.forall_mem_cons.mp hdepth
      exact .cons ⟨hobject, hfirst, h⟩ (ih hrest hdepth)

end Fields

end Decoder

/-- A revised record is read as what has become of its fields, in whatever order they stand, and
whatever stands between them. -/
theorem Revised.record_eq {kind : RecordKind} (names : List String)
    (hnames : kind.fieldNames = names) {members : List (String × Json)} {levels : Nat}
    (hdepth : (Json.object members).depth ≤ levels) {damaged : Bool} {j : Json}
    (h : Revised (.record kind) damaged (.object members) j) :
    ∃ fields, levels = fields.levels + 1 ∧ Decoder.record names levels j = some fields ∧
      fields.Given kind.fields damaged members := by
  subst hnames
  obtain ⟨m, rfl, hmembers⟩ := Json.depth_object_le_iff.mp hdepth
  cases h with
  | @record _ _ _ members' _ _ h hadded hperm =>
    obtain ⟨hnodup, h⟩ := Revised.record_iff.mp (.record h hadded hperm)
    refine ⟨⟨m, false, kind.knownMembers members'⟩, rfl, if_pos hnodup, ?_⟩
    refine Decoder.Fields.given_of_revised rfl (h.congr fun field hfield => ?_) hmembers
    exact RecordKind.lookup_knownMembers (List.mem_map_of_mem hfield)

/-! ## Readers of revised data -/

/-- What is read from a value that is damaged or not. -/
def unlessDamaged {α : Type} (damaged : Bool) (a : α) : Option α :=
  if damaged then none else some a

section

variable {α β : Type} {damaged damaged' : Bool}

@[simp] theorem map_unlessDamaged (f : α → β) (a : α) :
    (unlessDamaged damaged a).map f = unlessDamaged damaged (f a) := by
  cases damaged <;> rfl

@[simp] theorem bind_some_unlessDamaged (f : α → β) (a : α) :
    (unlessDamaged damaged a).bind (fun x => some (f x)) = unlessDamaged damaged (f a) := by
  cases damaged <;> rfl

@[simp] theorem bind_unlessDamaged (f : α → β) (a : α) :
    (unlessDamaged damaged a).bind (fun x => unlessDamaged damaged' (f x)) =
      unlessDamaged (damaged || damaged') (f a) := by
  cases damaged <;> rfl

end

namespace Decoder

variable {α β : Type} {decode : Decoder α} {encode : α → Json} {format : Format}

/-- Data is written in a format, and a reader gives back what is written from any revision of it
that is not damaged, and nothing from one that is. -/
structure ReadsRevised (decode : Decoder α) (encode : α → Json) (format : Format) : Prop where
  encode_revised (a : α) : Revised format false (encode a) (encode a)
  decode_eq {levels : Nat} {a : α} {damaged : Bool} {j : Json} (hdepth : (encode a).depth ≤ levels)
    (h : Revised format damaged (encode a) j) : decode levels j = unlessDamaged damaged a

namespace ReadsRevised

theorem reads (h : decode.ReadsRevised encode format) : decode.Reads encode :=
  fun hdepth => h.decode_eq hdepth (h.encode_revised _)

theorem writes (h : decode.ReadsRevised encode format) {name : String} {presence : Presence}
    {a : α} : RecordField.Writes ⟨name, presence, format⟩ (name, encode a) :=
  ⟨rfl, .kept (h.encode_revised a)⟩

theorem writes_option (h : decode.ReadsRevised encode format) {name : String} {a : Option α} :
    RecordField.Writes ⟨name, .optional, format⟩ (name, .ofOption encode a) := by
  cases a with
  | none => exact ⟨rfl, .null rfl⟩
  | some a => exact h.writes

theorem atom (h : decode.Reads encode) : decode.ReadsRevised encode .atom where
  encode_revised a := .atom (encode a)
  decode_eq hdepth hj := by
    cases hj
    exact h hdepth

theorem list (h : decode.ReadsRevised encode format) :
    (Decoder.list decode).ReadsRevised (Json.ofList encode) (.list format) where
  encode_revised l := by
    refine .list ?_
    induction l with
    | nil => exact .nil
    | cons a rest ih => exact .cons (h.encode_revised a) ih
  decode_eq {levels l damaged j} hdepth hj := by
    obtain ⟨m, rfl, hitems⟩ := Json.depth_array_le_iff.mp hdepth
    cases hj with
    | @list _ _ _ items' hj =>
      change items'.mapM (decode m) = unlessDamaged damaged l
      clear hdepth
      induction l generalizing damaged items' with
      | nil =>
        cases hj
        rfl
      | cons a rest ih =>
        cases hj with
        | cons hfirst hrest =>
          obtain ⟨ha, hitems⟩ := List.forall_mem_cons.mp hitems
          simp [h.decode_eq ha hfirst, ih hitems hrest]

theorem pair {second : Decoder β} {encode' : β → Json} {format' : Format}
    (h : decode.ReadsRevised encode format) (h' : second.ReadsRevised encode' format') :
    (Decoder.pair decode second).ReadsRevised (fun ab => Json.array [encode ab.1, encode' ab.2])
      (.pair format format') where
  encode_revised ab := .pair (h.encode_revised ab.1) (h'.encode_revised ab.2)
  decode_eq {levels ab damaged j} hdepth hj := by
    obtain ⟨m, rfl, hitems⟩ := Json.depth_array_le_iff.mp hdepth
    cases hj with
    | pair ha hb =>
      have ha := h.decode_eq (hitems _ List.mem_cons_self) ha
      have hb := h'.decode_eq (hitems _ (List.mem_cons_of_mem _ List.mem_cons_self)) hb
      simp [Decoder.pair, ha, hb]

end ReadsRevised

/-! ## Revised choices and fields -/

/-- A revised choice gives what has become of its content. -/
theorem choice_eq_of_revised {contents : List (String × Format)} {name : String}
    (hformat : contents.lookup name = some format) {j j' : Json} {levels : Nat} {damaged : Bool}
    (hdepth : (Json.object [(name, j)]).depth ≤ levels)
    (h : Revised (.choice contents) damaged (.object [(name, j)]) j') :
    ∃ m content, choice levels j' = some (m, name, content) ∧ j.depth ≤ m ∧
      Revised format damaged j content := by
  obtain ⟨m, rfl, hcontent⟩ := Json.depth_object_le_iff.mp hdepth
  cases h with
  | @content _ _ _ _ _ content hformat' h =>
    obtain rfl := Option.some.inj (hformat.symm.trans hformat')
    exact ⟨m, content, rfl, hcontent _ List.mem_cons_self, h⟩

namespace Fields.GivenField

variable {fields : Fields} {name : String} {damaged : Bool}

/-- A field that has to be given, for a reader that is known to read the value of the field. -/
theorem required_of_value {value : Json} {a : α}
    (h : fields.GivenField ⟨name, .required, format⟩ damaged value)
    (hread : ∀ {damaged j}, value.depth ≤ fields.levels → Revised format damaged value j →
      decode fields.levels j = unlessDamaged damaged a) :
    fields.required name decode = unlessDamaged damaged a := by
  obtain ⟨-, hdepth, hrevised⟩ := h
  rw [Fields.required]
  generalize fields.members.lookup name = given at hrevised
  cases hrevised with
  | kept h => exact hread hdepth h
  | missing => rfl
  | null h | omitted h | default h | nulled h => nomatch h

theorem required (hread : decode.ReadsRevised encode format) {a : α}
    (h : fields.GivenField ⟨name, .required, format⟩ damaged (encode a)) :
    fields.required name decode = unlessDamaged damaged a :=
  h.required_of_value hread.decode_eq

theorem withDefault (hread : decode.ReadsRevised encode format)
    (hnull : ∀ levels, decode levels .null = none) {default a : α}
    (h : fields.GivenField ⟨name, .defaulted (encode default), format⟩ damaged (encode a)) :
    fields.withDefault name default decode = unlessDamaged damaged a := by
  obtain ⟨-, hdepth, hrevised⟩ := h
  rw [Fields.withDefault]
  generalize fields.members.lookup name = given at hrevised
  generalize hj : encode a = j at hrevised
  cases hrevised with
  | kept h => exact hread.decode_eq hdepth (hj ▸ h)
  | nulled => exact hnull fields.levels
  | default hdefault =>
    -- What is read back is the same, so the value was the default.
    obtain rfl : encode default = j := Presence.defaulted.inj hdefault
    have ha : decode fields.levels (encode a) = some a := hread.reads hdepth
    rw [hj, hread.reads (hj ▸ hdepth)] at ha
    exact ha
  | null h | omitted h | missing h => nomatch h

theorem optional (hread : decode.ReadsRevised encode format) (hnull : ∀ a, encode a ≠ .null)
    {a : Option α}
    (h : fields.GivenField ⟨name, .optional, format⟩ damaged (.ofOption encode a)) :
    fields.optional name decode = unlessDamaged damaged a := by
  obtain ⟨-, hdepth, hrevised⟩ := h
  rw [Fields.optional, Fields.withDefault]
  generalize fields.members.lookup name = given at hrevised
  cases a with
  | none =>
    change RevisedField _ damaged .null given at hrevised
    cases hrevised with
    | kept h =>
      obtain ⟨rfl, rfl⟩ := h.of_null
      rfl
    | null => rfl
    | omitted => rfl
    | default h | missing h | nulled h => nomatch h
  | some a =>
    change RevisedField _ damaged (encode a) given at hrevised
    generalize hj : encode a = j at hrevised
    cases hrevised with
    | kept h =>
      subst hj
      simp only
      rw [option, hread.decode_eq hdepth h, map_unlessDamaged]
      exact h.ne_null (hnull a)
    | null => exact absurd hj (hnull a)
    | omitted => exact absurd hj (hnull a)
    | default h | missing h | nulled h => nomatch h

theorem nullable (hread : decode.ReadsRevised encode format) (hnull : ∀ a, encode a ≠ .null)
    {a : Option α}
    (h : fields.GivenField ⟨name, .optional, format⟩ damaged (.ofOption encode a)) :
    fields.nullable name decode = unlessDamaged damaged a := by
  rw [Fields.nullable, h.object]
  exact h.optional hread hnull

end Fields.GivenField

end Decoder

end ReactorSynth
