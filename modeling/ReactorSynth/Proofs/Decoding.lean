import ReactorSynth.Json.Decode
import ReactorSynth.Proofs.JsonText

/-!
# Reading back decoded data

A reader of data has to follow the value that it reads as deep as this goes, so it gives back what
was written if its levels are as many as the depth of the value (`Json.depth`, `Decoder.Reads`).

* `depth_array_le_iff`, `depth_object_le_iff`: a level is left for each item of an array and each
  member of an object.
* `reads_uint32`, `reads_uint64`, `reads_int64`: numbers are read back over their full ranges.
* `reads_string`, `reads_bool`, `reads_enumeration`: so are texts, truth values and names.
-/

namespace ReactorSynth

/-! ## Depth -/

namespace Json

mutual

/-- How many arrays and objects of a value lie inside each other. -/
def depth : Json → Nat
  | array items => itemsDepth items + 1
  | object members => membersDepth members + 1
  | _ => 0
termination_by structural j => j

/-- The greatest depth of the items of an array. -/
def itemsDepth : List Json → Nat
  | [] => 0
  | item :: rest => max (depth item) (itemsDepth rest)
termination_by structural items => items

/-- The greatest depth of the members of an object. -/
def membersDepth : List (String × Json) → Nat
  | [] => 0
  | member :: rest => max (memberDepth member) (membersDepth rest)
termination_by structural members => members

/-- The depth of a member is that of its value. -/
def memberDepth : String × Json → Nat
  | (_, value) => depth value
termination_by structural member => member

end

theorem itemsDepth_le_iff {l : List Json} {n : Nat} :
    itemsDepth l ≤ n ↔ ∀ item ∈ l, item.depth ≤ n := by
  induction l with
  | nil => simp [itemsDepth]
  | cons item rest ih => rw [itemsDepth, Nat.max_le, ih, List.forall_mem_cons]

theorem membersDepth_le_iff {l : List (String × Json)} {n : Nat} :
    membersDepth l ≤ n ↔ ∀ member ∈ l, member.2.depth ≤ n := by
  induction l with
  | nil => simp [membersDepth]
  | cons member rest ih =>
    obtain ⟨key, j⟩ := member
    rw [membersDepth, Nat.max_le, ih, List.forall_mem_cons]
    rfl

theorem depth_array_le_iff {l : List Json} {n : Nat} :
    (array l).depth ≤ n ↔ ∃ m, n = m + 1 ∧ ∀ item ∈ l, item.depth ≤ m := by
  rw [depth]
  constructor
  · intro h
    exact ⟨n - 1, by omega, itemsDepth_le_iff.mp (by omega)⟩
  · rintro ⟨m, rfl, h⟩
    exact Nat.succ_le_succ (itemsDepth_le_iff.mpr h)

theorem depth_object_le_iff {l : List (String × Json)} {n : Nat} :
    (object l).depth ≤ n ↔ ∃ m, n = m + 1 ∧ ∀ member ∈ l, member.2.depth ≤ m := by
  rw [depth]
  constructor
  · intro h
    exact ⟨n - 1, by omega, membersDepth_le_iff.mp (by omega)⟩
  · rintro ⟨m, rfl, h⟩
    exact Nat.succ_le_succ (membersDepth_le_iff.mpr h)

end Json

/-! ## Readers -/

namespace Decoder

variable {α : Type}

/-- A reader gives back what is written, given levels for the depth of it. -/
def Reads (decode : Decoder α) (encode : α → Json) : Prop :=
  ∀ {levels : Nat} {a : α}, (encode a).depth ≤ levels → decode levels (encode a) = some a

theorem reads_string : string.Reads Json.string := fun _ => rfl

theorem reads_bool : bool.Reads Json.bool := fun _ => rfl

theorem nat_eq {bound n : Nat} (h : n < bound) (levels : Nat) :
    nat bound levels (.nat n) = some n := by
  have hn : (0 : Int) ≤ n ∧ (n : Int) < bound := by omega
  simp [nat, integer, Json.nat, hn]

theorem reads_uint32 : uint32.Reads fun n => Json.nat n.toNat := by
  intro levels n _
  rw [uint32, nat_eq n.toNat_lt, Option.map_some, UInt32.ofNat_toNat]

theorem reads_uint64 : uint64.Reads fun n => Json.nat n.toNat := by
  intro levels n _
  rw [uint64, nat_eq n.toNat_lt, Option.map_some, UInt64.ofNat_toNat]

theorem reads_int64 : int64.Reads fun n => Json.integer n.toInt := by
  intro levels n _
  have hn : Int64.minValue.toInt ≤ n.toInt ∧ n.toInt < Int64.maxValue.toInt + 1 := by
    have hleast : Int64.minValue.toInt = -2 ^ 63 := rfl
    have hgreatest : Int64.maxValue.toInt + 1 = 2 ^ 63 := rfl
    rw [hleast, hgreatest]
    exact ⟨n.le_toInt, n.toInt_lt⟩
  rw [int64, integer, if_pos hn, Option.map_some, Int64.ofInt_toInt]

theorem reads_enumeration {alternatives : List (String × α)} {name : α → String}
    (h : ∀ a, alternatives.lookup (name a) = some a) :
    (enumeration alternatives).Reads fun a => Json.string (name a) := fun _ => h _

end Decoder

end ReactorSynth
