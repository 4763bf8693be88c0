import Mathlib.Data.Fin.VecNotation
import Mathlib.Data.Nat.Digits.Lemmas
import Mathlib.Data.Nat.Nth
import Mathlib.Data.Nat.Prime.Basic

/-!
# SHA-256 as equations

The hash as its standard states it. Words are vectors of bits, the constants are fractional parts of
roots of primes, and the message schedule, the rounds and the chain of blocks are sequences that
satisfy recurrences. Nothing here is taken from the definitions that run.

* `IsHashing`: the equations of a hashing; `IsHexDigest`: some hashing of the message has the text.
* `IsRootFraction.unique`, `IsPadding.unique`, `IsCompression.unique`, `IsHex.unique`: each part has
  a single solution.
* **`IsHexDigest.unique`**: a message has at most one digest.
-/

namespace ReactorSynth.Sha256

/-! ## The equations -/

/-- A word, bit by bit. -/
abbrev Word := BitVec 32

/-- The eight words that are carried from round to round, and from block to block. -/
abbrev Registers := Fin 8 → Word

/-- Each bit of `x` chooses between those of `y` and `z`. -/
def ch (x y z : Word) : Word := (x &&& y) ^^^ (~~~x &&& z)

/-- Each bit is the one that two of three words agree on. -/
def maj (x y z : Word) : Word := (x &&& y) ^^^ (x &&& z) ^^^ (y &&& z)

def sum0 (x : Word) : Word := x.rotateRight 2 ^^^ x.rotateRight 13 ^^^ x.rotateRight 22

def sum1 (x : Word) : Word := x.rotateRight 6 ^^^ x.rotateRight 11 ^^^ x.rotateRight 25

def sigma0 (x : Word) : Word := x.rotateRight 7 ^^^ x.rotateRight 18 ^^^ (x >>> 3)

def sigma1 (x : Word) : Word := x.rotateRight 17 ^^^ x.rotateRight 19 ^^^ (x >>> 10)

/-- The registers after a round, with the constant `k` and the scheduled word `w`. -/
def nextRegisters (k w : Word) (v : Registers) : Registers :=
  let t1 := v 7 + sum1 (v 4) + ch (v 4) (v 5) (v 6) + k + w
  let t2 := sum0 (v 0) + maj (v 0) (v 1) (v 2)
  ![t1 + t2, v 0, v 1, v 2, v 3 + t1, v 4, v 5, v 6]

/-- `k` is the fractional part of the root of `p` of degree `n`, cut off after thirty-two bits. -/
def IsRootFraction (n p : Nat) (k : Word) : Prop :=
  ∃ whole : Nat, (whole * 2 ^ 32 + k.toNat) ^ n ≤ p * 2 ^ (32 * n) ∧
    p * 2 ^ (32 * n) < (whole * 2 ^ 32 + k.toNat + 1) ^ n

/-- The message is followed by a one bit, by as few zero bits as make whole blocks of sixty-four
bytes, and by its length in bits as a number of eight bytes, highest first. -/
def IsPadding (message padded : List UInt8) : Prop :=
  ∃ zeros length, padded = message ++ 0x80 :: (List.replicate zeros 0 ++ length) ∧
    IsLeast {z | 64 ∣ message.length + 1 + z + 8} zeros ∧ length.length = 8 ∧
    Nat.ofDigits 256 (length.map UInt8.toNat).reverse = 8 * message.length % 2 ^ 64

/-- Word `t` of block `b`: four bytes, highest first. -/
def blockWord (padded : List UInt8) (b t : Nat) : Word :=
  let byte i := (padded.getD (64 * b + 4 * t + i) 0).toNat
  BitVec.ofNat 32 (((byte 0 * 256 + byte 1) * 256 + byte 2) * 256 + byte 3)

/-- A block is compressed into the registers: `W` is its message schedule, `v` the registers before
each round and after the last. -/
structure IsCompression (k block : Nat → Word) (before : Registers) (W : Nat → Word)
    (v : Nat → Registers) (after : Registers) : Prop where
  start : ∀ t < 16, W t = block t
  extend : ∀ t < 48, W (t + 16) = sigma1 (W (t + 14)) + W (t + 9) + sigma0 (W (t + 1)) + W t
  first : v 0 = before
  next : ∀ t < 64, v (t + 1) = nextRegisters (k t) (W t) (v t)
  last : ∀ i, after i = before i + v 64 i

/-- The text writes the registers, as one number, in sixty-four digits. -/
def IsHex (v : Registers) (text : String) : Prop :=
  ∃ digits : List Nat, text = String.ofList (digits.map Nat.digitChar) ∧ digits.length = 64 ∧
    (∀ d ∈ digits, d < 16) ∧ Nat.ofDigits 16 digits.reverse =
      Nat.ofDigits (2 ^ 32) ((List.ofFn v).map BitVec.toNat).reverse

/-- A hashing of a message: `k` are the constants of the rounds, `H` the registers before each
block and after the last. -/
structure IsHashing (message padded : List UInt8) (k : Nat → Word) (H : Nat → Registers)
    (text : String) : Prop where
  padding : IsPadding message padded
  constants : ∀ t < 64, IsRootFraction 3 (Nat.nth Nat.Prime t) (k t)
  initial : ∀ i : Fin 8, IsRootFraction 2 (Nat.nth Nat.Prime i) (H 0 i)
  blocks : ∀ b < padded.length / 64,
    ∃ W v, IsCompression k (blockWord padded b) (H b) W v (H (b + 1))
  hex : IsHex (H (padded.length / 64)) text

/-- The text is the digest of the message, in hexadecimal. -/
def IsHexDigest (message : List UInt8) (text : String) : Prop :=
  ∃ padded k H, IsHashing message padded k H text

/-! ## A single solution -/

/-- A root has one fractional part: the numbers whose powers lie around `p` are one number. -/
theorem IsRootFraction.unique {n p : Nat} {k k' : Word} (h : IsRootFraction n p k)
    (h' : IsRootFraction n p k') : k = k' := by
  obtain ⟨c, hlo, hhi⟩ := h
  obtain ⟨c', hlo', hhi'⟩ := h'
  have hle := lt_of_pow_lt_pow_left₀ n (Nat.zero_le _) (hlo.trans_lt hhi')
  have hge := lt_of_pow_lt_pow_left₀ n (Nat.zero_le _) (hlo'.trans_lt hhi)
  have hk := k.isLt
  have hk' := k'.isLt
  exact BitVec.eq_of_toNat_eq (by omega)

theorem IsPadding.unique {message padded padded' : List UInt8} (h : IsPadding message padded)
    (h' : IsPadding message padded') : padded = padded' := by
  obtain ⟨zeros, length, rfl, hzeros, hlen, hvalue⟩ := h
  obtain ⟨zeros', length', rfl, hzeros', hlen', hvalue'⟩ := h'
  have hbytes : ∀ l : List UInt8, ∀ d ∈ (l.map UInt8.toNat).reverse, d < 256 := by
    intro l d hd
    obtain ⟨b, -, rfl⟩ := List.mem_map.mp (List.mem_reverse.mp hd)
    exact b.toNat_lt
  have hdigits : (length.map UInt8.toNat).reverse = (length'.map UInt8.toNat).reverse :=
    Nat.ofDigits_inj_of_len_eq (by decide) (by simp [hlen, hlen']) (hbytes _) (hbytes _)
      (hvalue.trans hvalue'.symm)
  have hlength : length = length' :=
    List.map_injective_iff.mpr (fun _ _ => UInt8.toNat_inj.mp) (List.reverse_injective hdigits)
  rw [hzeros.unique hzeros', hlength]

/-- The schedule is determined from its first words on, the registers from round to round. -/
theorem IsCompression.unique {k k' block : Nat → Word} {before after after' : Registers}
    {W W' : Nat → Word} {v v' : Nat → Registers} (hk : ∀ t < 64, k t = k' t)
    (h : IsCompression k block before W v after) (h' : IsCompression k' block before W' v' after') :
    after = after' := by
  have hW : ∀ t < 64, W t = W' t := by
    intro t
    induction t using Nat.strongRecOn with
    | ind t ih =>
      intro ht
      rcases Nat.lt_or_ge t 16 with hlt | hge
      · rw [h.start t hlt, h'.start t hlt]
      · obtain ⟨u, rfl⟩ := Nat.exists_eq_add_of_le' hge
        rw [h.extend u (by omega), h'.extend u (by omega), ih (u + 14) (by omega) (by omega),
          ih (u + 9) (by omega) (by omega), ih (u + 1) (by omega) (by omega),
          ih u (by omega) (by omega)]
  have hv : ∀ t ≤ 64, v t = v' t := by
    intro t
    induction t with
    | zero => exact fun _ => h.first.trans h'.first.symm
    | succ t ih =>
      intro ht
      rw [h.next t ht, h'.next t ht, hk t ht, hW t ht, ih (Nat.le_of_lt ht)]
  funext i
  rw [h.last, h'.last, hv 64 (Nat.le_refl _)]

theorem IsHex.unique {v : Registers} {text text' : String} (h : IsHex v text)
    (h' : IsHex v text') : text = text' := by
  obtain ⟨digits, rfl, hlen, hlt, hvalue⟩ := h
  obtain ⟨digits', rfl, hlen', hlt', hvalue'⟩ := h'
  have hdigits : digits.reverse = digits'.reverse :=
    Nat.ofDigits_inj_of_len_eq (by decide) (by simp [hlen, hlen'])
      (fun d hd => hlt d (List.mem_reverse.mp hd)) (fun d hd => hlt' d (List.mem_reverse.mp hd))
      (hvalue.trans hvalue'.symm)
  rw [List.reverse_injective hdigits]

/-- A message has at most one digest: the registers agree before every block. -/
theorem IsHexDigest.unique {message : List UInt8} {text text' : String}
    (h : IsHexDigest message text) (h' : IsHexDigest message text') : text = text' := by
  obtain ⟨padded, k, H, h⟩ := h
  obtain ⟨padded', k', H', h'⟩ := h'
  obtain rfl := h.padding.unique h'.padding
  have hk : ∀ t < 64, k t = k' t := fun t ht => (h.constants t ht).unique (h'.constants t ht)
  have hH : ∀ b ≤ padded.length / 64, H b = H' b := by
    intro b
    induction b with
    | zero => exact fun _ => funext fun i => (h.initial i).unique (h'.initial i)
    | succ b ih =>
      intro hb
      obtain ⟨W, v, hrun⟩ := h.blocks b hb
      obtain ⟨W', v', hrun'⟩ := h'.blocks b hb
      rw [← ih (Nat.le_of_lt hb)] at hrun'
      exact hrun.unique hk hrun'
  have hhex := h'.hex
  rw [← hH _ (Nat.le_refl _)] at hhex
  exact h.hex.unique hhex

end ReactorSynth.Sha256
