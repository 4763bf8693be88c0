import ReactorSynth.Proofs.ProgramReaders

/-!
# Reading back written programs

Whatever a program holds, its JSON text is read back as the same program, unless it nests too deep
for any text to be read.

* `Program.isPlain_encode`: a program is written in values that have texts of their own.
* `Program.reads`: a program is read back from its JSON value.
* **`Program.ofText?_toText`**: a program is read back from its text.
-/

namespace ReactorSynth

open Decoder

/-! ## Written values -/

@[simp] theorem TimeUnit.isPlain_encode (u : TimeUnit) : u.encode.IsPlain := .string _

@[simp] theorem TimeValue.isPlain_encode (t : TimeValue) : t.encode.IsPlain := by simp [encode]

@[simp] theorem Value.isPlain_encode (v : Value) : v.encode.IsPlain := by
  cases v <;> simp [encode]

@[simp] theorem DataType.isPlain_encode (t : DataType) : t.encode.IsPlain := by
  induction t with
  | time => exact .string _
  | code text => simp [encode]
  | list element size ih => simp [encode, ih]

@[simp] theorem WidthTerm.isPlain_encode (w : WidthTerm) : w.encode.IsPlain := by
  cases w <;> simp [encode]

@[simp] theorem Width.isPlain_encode (w : Width) : w.encode.IsPlain := by simp [encode]

@[simp] theorem Parameter.isPlain_encode (p : Parameter) : p.encode.IsPlain := by simp [encode]

@[simp] theorem StateVar.isPlain_encode (s : StateVar) : s.encode.IsPlain := by simp [encode]

@[simp] theorem Port.isPlain_encode (p : Port) : p.encode.IsPlain := by simp [encode]

@[simp] theorem Action.isPlain_encode (a : Action) : a.encode.IsPlain := by simp [encode]

@[simp] theorem Timer.isPlain_encode (t : Timer) : t.encode.IsPlain := by simp [encode]

@[simp] theorem VarRef.isPlain_encode (r : VarRef) : r.encode.IsPlain := by simp [encode]

@[simp] theorem Reaction.isPlain_encode (r : Reaction) : r.encode.IsPlain := by simp [encode]

@[simp] theorem Instantiation.isPlain_encode (i : Instantiation) : i.encode.IsPlain := by
  simp [encode, encodeAssignment]

@[simp] theorem Reactor.isPlain_encode (r : Reactor) : r.encode.IsPlain := by simp [encode]

theorem Program.isPlain_encode (p : Program) : p.encode.IsPlain := by simp [encode]

/-! ## Programs -/

namespace Program

theorem reads : decode.Reads Program.encode := readsRevised.reads

/-- **A program is read back from its text**, if the text nests at most 127 arrays and objects. -/
theorem ofText?_toText {p : Program} (h : p.encode.depth ≤ 127) : ofText? p.toText = some p := by
  rw [ofText?, toText, Json.read?_print p.isPlain_encode]
  exact reads h

/-- A list type of lists, and so on, down to times. -/
def nestedType : Nat → DataType
  | 0 => .time
  | n + 1 => .list (nestedType n) (some (.ofNat n))

/-- A program that nests exactly as deep as its text may, with numbers at the ends of their ranges,
and with texts that have to be escaped or leave the first plane of characters. -/
def deepestProgram : Program where
  reactors :=
    [{ name := "\"\\/\u0001\u0008\u000c\n\r\t\u007f"
       isMain := true
       parameters := [{ name := "\u2028é𝄞", type := some (nestedType 61) }]
       stateVars :=
         [{ name := "", init := [.time ⟨Int64.minValue, .none⟩, .time ⟨Int64.maxValue, .week⟩] }]
       ports := [{ name := "p", direction := .output, width := some (.literal 4294967295) }]
       actions :=
         [{ name := "a", origin := .physical
            type := some (.list (.code "[]\x7b\x7d") (some 18446744073709551615)) }]
       instantiations :=
         [{ name := "i", reactorClass := "null", width := some (.parameter "n")
            parameters := [("x", [.parameter "y", .literal "-0.0"]), ("x", [])] }] }]

theorem ofText?_toText_deepestProgram :
    deepestProgram.encode.depth = 127 ∧ ofText? deepestProgram.toText = some deepestProgram := by
  have hdepth : deepestProgram.encode.depth = 127 := by decide +kernel
  exact ⟨hdepth, ofText?_toText (Nat.le_of_eq hdepth)⟩

end Program

end ReactorSynth
