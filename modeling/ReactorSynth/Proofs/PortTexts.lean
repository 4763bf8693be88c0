import ReactorSynth.Proofs.FullNames
import ReactorSynth.Proofs.TimeTexts
import ReactorSynth.Reference

/-!
# Texts of ports

The text of a port is made of up to four parts: the name of its container with a bank index, and
its own name with a channel index. An index is a part only where it takes effect: it is not negative
and its declaration has a width. `PortAddress` is these parts by themselves.

* `PortAddress.chars_inj`: without dots and opening brackets in the names, the parts can be read
  back from the text, those that are missing included.
* `ResolvedRef.portText_of_port`: the text of a port is that of its address.
* `ResolvedRef.portText_eq_error_iff`: no other variable has such a text, for any indices.
* **`ResolvedRef.portText_identifies`**: ports with plain names have one text iff they agree in all
  parts, and a port without an index in effect has the text of a bare reference.
-/

namespace ReactorSynth

/-! ## Names with a 64-bit index -/

/-- The digits of an index, if there is one. -/
def indexText (index : Option Int64) : Option String := index.map fun i => toString i.toInt

theorem indexText_inj {i j : Option Int64} (h : indexText i = indexText j) : i = j := by
  refine Option.map_injective (fun k l hkl => Int64.toInt_inj.mp (Option.some.inj ?_)) h
  rw [← Text.integer?_toString, ← Text.integer?_toString, hkl]

/-- A name and the index behind it. -/
def indexedName (name : String) (index : Option Int64) : List Char :=
  name.toList ++ bracketed (indexText index)

theorem indexedName_inj {name name' : String} {i j : Option Int64} (hname : PlainName name)
    (hname' : PlainName name') (h : indexedName name i = indexedName name' j) :
    name = name' ∧ i = j := by
  obtain ⟨htext, hindex⟩ := append_bracketed_inj hname hname' h
  exact ⟨htext, indexText_inj hindex⟩

theorem dot_notMem_indexedName {name : String} (hname : PlainName name) (index : Option Int64) :
    '.' ∉ indexedName name index := by
  refine dot_notMem_append_bracketed hname fun text htext hmem => ?_
  obtain ⟨i, -, rfl⟩ := Option.mem_map.mp htext
  exact absurd (Text.isIntegerChar_toString i.toInt '.' hmem) (by decide)

/-! ## Addresses -/

/-- The parts of the text of a port: the container with its bank index, the port, and the channel
index. -/
structure PortAddress where
  container : Option (String × Option Int64)
  port : String
  channel : Option Int64
  deriving DecidableEq, Repr

namespace PortAddress

/-- The text of an address. -/
def chars (a : PortAddress) : List Char :=
  match a.container with
  | none => indexedName a.port a.channel
  | some (name, bank) => indexedName name bank ++ '.' :: indexedName a.port a.channel

/-- The names of an address are plain. -/
structure IsPlain (a : PortAddress) : Prop where
  container : ∀ c ∈ a.container, PlainName c.1
  port : PlainName a.port

variable {a b : PortAddress}

/-- The text of an address has a dot iff there is a container. -/
theorem IsPlain.dot_mem_chars_iff (ha : a.IsPlain) :
    '.' ∈ a.chars ↔ a.container.isSome = true := by
  unfold chars
  cases a.container with
  | none => simpa using dot_notMem_indexedName ha.port a.channel
  | some c => simp

/-- An address can be read back from its text: the only dot stands behind the container. -/
theorem chars_inj (ha : a.IsPlain) (hb : b.IsPlain) (h : a.chars = b.chars) : a = b := by
  have hsome : a.container.isSome = b.container.isSome := by
    rw [Bool.eq_iff_iff, ← ha.dot_mem_chars_iff, ← hb.dot_mem_chars_iff, h]
  obtain ⟨container, port, channel⟩ := a
  obtain ⟨container', port', channel'⟩ := b
  cases container with
  | none =>
    cases container' with
    | some c' => exact absurd hsome Bool.false_ne_true
    | none =>
      obtain ⟨rfl, rfl⟩ := indexedName_inj ha.port hb.port h
      rfl
  | some c =>
    cases container' with
    | none => exact absurd hsome.symm Bool.false_ne_true
    | some c' =>
      -- Both texts are cut at their dots, and then each piece at its bracket.
      have hc := ha.container c rfl
      have hc' := hb.container c' rfl
      obtain ⟨hpath, hport⟩ := append_inj_of_notMem (dot_notMem_indexedName hc c.2)
        (dot_notMem_indexedName hc' c'.2) (by simp) (by simp) h
      obtain ⟨hname, hbank⟩ := indexedName_inj hc hc' hpath
      obtain ⟨rfl, rfl⟩ := indexedName_inj ha.port hb.port (List.cons.inj hport).2
      rw [Prod.ext hname hbank]

end PortAddress

/-! ## References -/

/-- Whether the variable is a port. -/
def Variable.isPort : Variable → Bool
  | port _ => true
  | _ => false

namespace ResolvedRef

variable {r r' : ResolvedRef} {bank bank' channel channel' : Option Int64}

/-- An index takes effect where there is a width, if it is not negative. -/
def effective (hasWidth : Bool) (index : Option Int64) : Option Int64 :=
  index.filter fun i => hasWidth && decide (0 ≤ i)

/-- The bank index that takes effect: that of a container with a width. -/
def bankIndex? (r : ResolvedRef) (bank : Option Int64) : Option Int64 :=
  r.container.bind fun c => effective c.isBank bank

/-- The channel index that takes effect: that of a port with a width. -/
def channelIndex? (r : ResolvedRef) (channel : Option Int64) : Option Int64 :=
  match r.target with
  | .port p => effective p.isMultiport channel
  | _ => none

/-- The container of the reference, if there is one, and its variable have plain names. -/
structure HasPlainNames (r : ResolvedRef) : Prop where
  container : ∀ c ∈ r.container, PlainName c.name
  target : PlainName r.target.name

/-- The parts of the text of a port. -/
def address (r : ResolvedRef) (bank channel : Option Int64) : PortAddress where
  container := r.container.map fun c => (c.name, effective c.isBank bank)
  port := r.target.name
  channel := r.channelIndex? channel

theorem toList_subscript (hasWidth : Bool) (index : Option Int64) :
    (subscript hasWidth index).toList = bracketed (indexText (effective hasWidth index)) := by
  cases index with
  | none => rfl
  | some i =>
    rw [subscript, effective, Option.filter_some]
    split
    · simp [bracketed, indexText]
    · rfl

/-- The text of a port is that of its address. -/
theorem portText_of_port (h : r.target.isPort = true) (bank channel : Option Int64) :
    r.portText bank channel = .ok (String.ofList (r.address bank channel).chars) := by
  obtain ⟨container, target⟩ := r
  cases target with
  | action a => exact absurd h Bool.false_ne_true
  | timer t => exact absurd h Bool.false_ne_true
  | port p =>
    refine congrArg Except.ok (String.toList_inj.mp ?_)
    cases container <;>
      simp [address, PortAddress.chars, indexedName, toList_subscript, channelIndex?, Variable.name]

/-- What is not a port has no port text for any indices; the failure has its bare text. -/
theorem portText_eq_error_iff {e : GenError} : r.portText bank channel = .error e ↔
    r.target.isPort = false ∧ e = .notAPort r.text r.target.kind := by
  cases hp : r.target.isPort with
  | true => simp [portText_of_port hp]
  | false =>
    obtain ⟨container, target⟩ := r
    cases target with
    | port p => exact absurd hp.symm Bool.false_ne_true
    | action a => simp [portText, eq_comm]
    | timer t => simp [portText, eq_comm]

theorem address_eq_iff : r.address bank channel = r'.address bank' channel' ↔
    r.container.map (·.name) = r'.container.map (·.name) ∧ r.target.name = r'.target.name ∧
      r.bankIndex? bank = r'.bankIndex? bank' ∧
      r.channelIndex? channel = r'.channelIndex? channel' := by
  rw [address, address, PortAddress.mk.injEq]
  unfold bankIndex?
  cases r.container <;> cases r'.container <;> simp [and_assoc, and_left_comm]

theorem HasPlainNames.address (h : r.HasPlainNames) (bank channel : Option Int64) :
    (r.address bank channel).IsPlain := by
  refine ⟨fun c hc => ?_, h.target⟩
  obtain ⟨container, hcontainer, rfl⟩ := Option.mem_map.mp hc
  exact h.container container hcontainer

/-- Without an index in effect, the text of a port is its bare text. -/
theorem chars_address_of_none (hbank : r.bankIndex? bank = none)
    (hchannel : r.channelIndex? channel = none) :
    (r.address bank channel).chars = r.text.toList := by
  unfold bankIndex? at hbank
  unfold address PortAddress.chars text
  rw [hchannel]
  cases hc : r.container with
  | none => simp [indexedName, indexText, bracketed]
  | some c =>
    rw [hc, Option.bind_some] at hbank
    simp [hbank, indexedName, indexText, bracketed]

/-- **Port texts tell ports apart.** A port text is refused iff the variable is not a port, whatever
the indices, and the failure has the bare text of the reference. Without an index in effect, the
text of a port is that bare text. Ports with plain names have the same text iff they agree on having
a container and on its name, on their own name, and on both indices in effect. -/
theorem portText_identifies (r : ResolvedRef) (bank channel : Option Int64) :
    (∀ e, r.portText bank channel = .error e ↔
      r.target.isPort = false ∧ e = .notAPort r.text r.target.kind) ∧
    (r.target.isPort = true →
      (∃ text, r.portText bank channel = .ok text ∧
        (r.bankIndex? bank = none → r.channelIndex? channel = none → text = r.text)) ∧
      ∀ (r' : ResolvedRef) (bank' channel' : Option Int64), r'.target.isPort = true →
        r.HasPlainNames → r'.HasPlainNames →
          (r.portText bank channel = r'.portText bank' channel' ↔
            r.container.map (·.name) = r'.container.map (·.name) ∧
              r.target.name = r'.target.name ∧ r.bankIndex? bank = r'.bankIndex? bank' ∧
              r.channelIndex? channel = r'.channelIndex? channel')) := by
  refine ⟨fun e => portText_eq_error_iff, fun hport => ⟨⟨_, portText_of_port hport bank channel,
    fun hbank hchannel => ?_⟩, fun r' bank' channel' hport' hplain hplain' => ?_⟩⟩
  · rw [chars_address_of_none hbank hchannel, String.ofList_toList]
  · rw [portText_of_port hport, portText_of_port hport', ← address_eq_iff]
    constructor
    · intro h
      exact PortAddress.chars_inj (hplain.address bank channel) (hplain'.address bank' channel')
        (String.ofList_injective (Except.ok.inj h))
    · intro h
      rw [h]

/-- A multiport of a bank. -/
def bankedPort : ResolvedRef :=
  ⟨some ⟨"cell", "Cell", some (.literal 4), []⟩, .port ⟨"out", .output, none, some (.literal 2)⟩⟩

/-- The same names without widths. -/
def plainPort : ResolvedRef :=
  ⟨some ⟨"cell", "Cell", none, []⟩, .port ⟨"out", .output, none, none⟩⟩

/-- A multiport of a bank is told from the port that takes no index, until its own indices take no
effect either. -/
theorem portText_identifies_bankedPort :
    bankedPort.target.isPort = true ∧ plainPort.target.isPort = true ∧
      bankedPort.HasPlainNames ∧ plainPort.HasPlainNames ∧
      plainPort.bankIndex? (some 2) = none ∧ plainPort.channelIndex? (some 1) = none ∧
      (∃ text, plainPort.portText (some 2) (some 1) = .ok text ∧ text = "cell.out") ∧
      bankedPort.portText (some 2) (some 1) = .ok "cell[2].out[1]" ∧
      bankedPort.portText (some 2) (some (-1)) ≠ plainPort.portText (some 2) (some 1) ∧
      bankedPort.portText (some (-2)) none = plainPort.portText (some 2) (some 1) := by
  have hbanked : bankedPort.HasPlainNames :=
    ⟨fun c hc => Option.some.inj hc ▸ ⟨by decide, by decide⟩, ⟨by decide, by decide⟩⟩
  have hplain : plainPort.HasPlainNames :=
    ⟨fun c hc => Option.some.inj hc ▸ ⟨by decide, by decide⟩, ⟨by decide, by decide⟩⟩
  obtain ⟨text, htext, hbare⟩ := ((portText_identifies plainPort (some 2) (some 1)).2 rfl).1
  have hcompare : ∀ bank channel, _ := fun bank channel =>
    ((portText_identifies bankedPort bank channel).2 rfl).2 plainPort (some 2) (some 1) rfl hbanked
      hplain
  refine ⟨rfl, rfl, hbanked, hplain, by decide, by decide,
    ⟨text, htext, hbare (by decide) (by decide)⟩, by decide, ?_, ?_⟩
  · rw [ne_eq, hcompare]
    decide
  · rw [hcompare]
    decide

-- With a dot or a bracket in a name, different ports may share a text.
example : portText ⟨none, .port ⟨"line.out", .output, none, none⟩⟩ none none =
      portText ⟨some ⟨"line", "Line", none, []⟩, .port ⟨"out", .output, none, none⟩⟩ none none ∧
    portText ⟨none, .port ⟨"out[1]", .output, none, none⟩⟩ none none =
      portText ⟨none, .port ⟨"out", .output, none, some (.literal 2)⟩⟩ none (some 1) := by decide

end ResolvedRef

end ReactorSynth
