import ReactorSynth.Digest.Sha256
import ReactorSynth.Proofs.HashEquations

/-!
# Digests

The loops over lists of machine words that compute a digest solve the equations of the hash.

* `isRootFraction_constant`, `isRootFraction_initial`: the tables are roots of the first primes.
* `isPadding_pad`, `words_getElem?`, `toBitVec_word`: the padding, and the words of its blocks.
* `extendSchedule_recurrence`, `isCompression_compress`: the schedule, and the rounds of a block.
* `ofDigits_flatMap_hexDigits`, `isHex_registers`: the digits that are written.
* **`isHexDigest_iff`**: a text is the digest of a message iff it is what `hexDigest` writes.
-/

namespace ReactorSynth.Sha256

/-! ## Machine words -/

/-- The registers of a state. -/
def State.registers (s : State) : Registers :=
  ![s.a.toBitVec, s.b.toBitVec, s.c.toBitVec, s.d.toBitVec, s.e.toBitVec, s.f.toBitVec,
    s.g.toBitVec, s.h.toBitVec]

/-- The constants of the rounds. -/
def constant (t : Nat) : Word := (roundConstants.getD t 0).toBitVec

/-- A round of machine words is one of registers. -/
theorem registers_round (s : State) (k w : UInt32) :
    (round s k w).registers = nextRegisters k.toBitVec w.toBitVec s.registers := rfl

/-! ## Constants -/

/-- The numbers below a bound that have a property are those with the first indices. -/
theorem nth_of_filter_range {q : Nat → Prop} [DecidablePred q] {n t m : Nat}
    (h : ((List.range n).filter (q ·))[t]? = some m) : Nat.nth q t = m := by
  have hcount : ∀ k, ((List.range k).filter (q ·)).length = Nat.count q k := by
    intro k
    induction k with
    | zero => rfl
    | succ k ih =>
      rw [List.range_succ, List.filter_append, List.length_append, ih, Nat.count_succ]
      by_cases hk : q k <;> simp [hk]
  induction n with
  | zero => simp at h
  | succ n ih =>
    rw [List.range_succ, List.filter_append, List.getElem?_append, hcount] at h
    split at h
    · exact ih h
    · obtain ⟨hm, hq⟩ := List.mem_filter.mp (List.mem_of_getElem? h)
      obtain rfl := List.mem_singleton.mp hm
      have hlt := (List.getElem?_eq_some_iff.mp h).1
      have hone := List.length_filter_le (q ·) [m]
      have ht : t = Nat.count q m := by
        simp only [List.length_singleton] at hone
        omega
      rw [ht]
      exact Nat.nth_count (by simpa using hq)

/-- The numbers below 312 that no smaller number from two to seventeen divides. -/
def firstPrimes : List Nat :=
  (List.range 312).filter fun q => 2 ≤ q && (List.range' 2 16).all fun m => q ≤ m || q % m != 0

/-- A number below the square of eighteen is prime unless a smaller number divides it. -/
theorem prime_iff {q : Nat} (h : q < 312) :
    q.Prime ↔ 2 ≤ q ∧ ∀ m, 2 ≤ m → m < 18 → m < q → ¬ m ∣ q := by
  rw [Nat.prime_def_le_sqrt]
  refine and_congr_right fun h2 => ⟨fun hq m hm _ hlt hdvd => ?_, fun hq m hm hle => ?_⟩
  · have hp : q.Prime := Nat.prime_def_le_sqrt.mpr ⟨h2, hq⟩
    rcases hp.eq_one_or_self_of_dvd m hdvd with rfl | rfl <;> omega
  · have hsq : m * m ≤ q := Nat.le_sqrt.mp hle
    have htwo := Nat.mul_le_mul_right m hm
    refine hq m hm ?_ (by omega)
    by_contra hge
    have := Nat.mul_le_mul (Nat.not_lt.mp hge) (Nat.not_lt.mp hge)
    omega

theorem nth_prime_of_firstPrimes {t p : Nat} (h : firstPrimes[t]? = some p) :
    Nat.nth Nat.Prime t = p := by
  have hfilter : (List.range 312).filter (Nat.Prime ·) = firstPrimes := by
    refine List.filter_congr fun q hq => ?_
    rw [Bool.eq_iff_iff, decide_eq_true_iff, prime_iff (List.mem_range.mp hq)]
    simp only [Bool.and_eq_true, decide_eq_true_eq, List.all_eq_true, List.mem_range'_1,
      Bool.or_eq_true, bne_iff_ne, Nat.dvd_iff_mod_eq_zero]
    refine and_congr_right fun _ => forall_congr' fun m => ?_
    omega
  exact nth_of_filter_range (hfilter ▸ h)

/-- Roots checked one by one, each with its whole part. -/
theorem isRootFraction_of_zip {n : Nat} {ks : List UInt32}
    (h : ∀ e ∈ firstPrimes.zip ks, ∃ whole < 20,
      (whole * 2 ^ 32 + e.2.toNat) ^ n ≤ e.1 * 2 ^ (32 * n) ∧
        e.1 * 2 ^ (32 * n) < (whole * 2 ^ 32 + e.2.toNat + 1) ^ n)
    {t : Nat} {k : UInt32} (hk : ks[t]? = some k) (hlen : ks.length ≤ 64) :
    IsRootFraction n (Nat.nth Nat.Prime t) k.toBitVec := by
  have ht : t < firstPrimes.length := by
    have : firstPrimes.length = 64 := by decide +kernel
    have := (List.getElem?_eq_some_iff.mp hk).1
    omega
  have hp := List.getElem?_eq_getElem ht
  rw [nth_prime_of_firstPrimes hp]
  obtain ⟨whole, -, hroot⟩ := h (firstPrimes[t], k)
    (List.mem_of_getElem? (List.getElem?_zip_eq_some.mpr ⟨hp, hk⟩))
  exact ⟨whole, hroot⟩

theorem isRootFraction_constant {t : Nat} (ht : t < 64) :
    IsRootFraction 3 (Nat.nth Nat.Prime t) (constant t) := by
  have hlen : roundConstants.length = 64 := rfl
  have hk : roundConstants[t]? = some (roundConstants.getD t 0) := by
    rw [List.getElem?_eq_getElem (hlen ▸ ht), List.getD_eq_getElem _ _ (hlen ▸ ht)]
  exact isRootFraction_of_zip (by decide +kernel) hk hlen.le

theorem isRootFraction_initial (i : Fin 8) :
    IsRootFraction 2 (Nat.nth Nat.Prime i) (initial.registers i) := by
  have hroots : ∀ e ∈ firstPrimes.zip [initial.a, initial.b, initial.c, initial.d, initial.e,
      initial.f, initial.g, initial.h], ∃ whole < 20,
      (whole * 2 ^ 32 + e.2.toNat) ^ 2 ≤ e.1 * 2 ^ (32 * 2) ∧
        e.1 * 2 ^ (32 * 2) < (whole * 2 ^ 32 + e.2.toNat + 1) ^ 2 := by decide +kernel
  match i with
  | 0 | 1 | 2 | 3 | 4 | 5 | 6 | 7 => exact isRootFraction_of_zip hroots rfl (by decide)

/-! ## Padding and words -/

/-- The places of a number in a base, highest first, write it up to the next place. -/
theorem ofDigits_places (base k n : Nat) :
    Nat.ofDigits base ((List.range k).map fun i => n / base ^ (k - 1 - i) % base).reverse =
      n % base ^ k := by
  induction k with
  | zero => simp [Nat.mod_one]
  | succ k ih =>
    have htail : ((List.range k).map fun i => n / base ^ (k + 1 - 1 - (i + 1)) % base) =
        (List.range k).map fun i => n / base ^ (k - 1 - i) % base := by
      refine List.map_congr_left fun i _ => ?_
      rw [show k + 1 - 1 - (i + 1) = k - 1 - i by omega]
    rw [List.range_succ_eq_map, List.map_cons, List.map_map, List.reverse_cons,
      Nat.ofDigits_append, Nat.ofDigits_singleton, Nat.mod_pow_succ, ← ih, ← htail]
    simp [Function.comp_def]

theorem ofDigits_lengthBytes (bits : Nat) :
    Nat.ofDigits 256 ((lengthBytes bits).map UInt8.toNat).reverse = bits % 2 ^ 64 := by
  have hbytes : (lengthBytes bits).map UInt8.toNat =
      (List.range 8).map fun i => bits / 256 ^ (8 - 1 - i) % 256 := by
    rw [lengthBytes, List.map_map]
    refine List.map_congr_left fun i _ => ?_
    rw [Function.comp_apply, UInt8.toNat_ofNat', Nat.shiftRight_eq_div_pow, Nat.pow_mul]
  rw [hbytes, ofDigits_places]
  rfl

theorem isPadding_pad (message : List UInt8) : IsPadding message (pad message) := by
  refine ⟨_, _, rfl, ⟨?_, fun z hz => ?_⟩, by simp [lengthBytes], ofDigits_lengthBytes _⟩
  · rw [Set.mem_ofPred_eq]
    omega
  · rw [Set.mem_ofPred_eq] at hz
    omega

/-- A byte moved up within a word. -/
theorem toNat_toUInt32_shiftLeft (x : UInt8) {n : UInt32} (h : n.toNat ≤ 24) :
    (x.toUInt32 <<< n).toNat = x.toNat * 2 ^ n.toNat := by
  have hx := x.toNat_lt
  have hpow : 2 ^ n.toNat ≤ 2 ^ 24 := Nat.pow_le_pow_right (by decide) h
  rw [UInt32.toNat_shiftLeft, UInt8.toNat_toUInt32, Nat.shiftLeft_eq,
    Nat.mod_eq_of_lt (a := n.toNat) (by omega), Nat.mod_eq_of_lt]
  calc x.toNat * 2 ^ n.toNat ≤ 255 * 2 ^ 24 := Nat.mul_le_mul (by omega) hpow
    _ < 2 ^ 32 := by decide

theorem toBitVec_word (a b c d : UInt8) :
    (word a b c d).toBitVec =
      BitVec.ofNat 32 (((a.toNat * 256 + b.toNat) * 256 + c.toNat) * 256 + d.toNat) := by
  have ha := a.toNat_lt
  have hb := b.toNat_lt
  have hc := c.toNat_lt
  have hd := d.toNat_lt
  -- no byte reaches into the place of the one before it, so that all are added
  have hor : ∀ x y i, y < 2 ^ i → (x * 2 ^ i ||| y) = x * 2 ^ i + y := fun x y i hy => by
    rw [← Nat.shiftLeft_eq, Nat.shiftLeft_add_eq_or_of_lt hy]
  have hword : (word a b c d).toNat =
      (a.toNat * 2 ^ 24 ||| (b.toNat * 2 ^ 16 ||| (c.toNat * 2 ^ 8 ||| d.toNat))) := by
    simp only [word, UInt32.toNat_or, Nat.or_assoc, UInt8.toNat_toUInt32]
    rw [toNat_toUInt32_shiftLeft a (by decide), toNat_toUInt32_shiftLeft b (by decide),
      toNat_toUInt32_shiftLeft c (by decide)]
    rfl
  rw [hor _ _ 8 hd, hor _ _ 16 (by omega), hor _ _ 24 (by omega)] at hword
  refine BitVec.eq_of_toNat_eq ?_
  rw [BitVec.toNat_ofNat, UInt32.toNat_toBitVec, hword]
  omega

/-- The words of a list of bytes are its whole groups of four. -/
theorem length_words (bytes : List UInt8) : (words bytes).length = bytes.length / 4 := by
  fun_induction words bytes with
  | case1 a b c d rest ih => simp only [List.length_cons, ih]; omega
  | case2 bytes hnone =>
    match bytes, hnone with
    | [], _ | [_], _ | [_, _], _ | [_, _, _], _ => simp
    | a :: b :: c :: d :: rest, h => exact absurd rfl (h a b c d rest)

theorem words_getElem? {bytes : List UInt8} {j : Nat} (h : j < (words bytes).length) :
    (words bytes)[j]? = some (word (bytes.getD (4 * j) 0) (bytes.getD (4 * j + 1) 0)
      (bytes.getD (4 * j + 2) 0) (bytes.getD (4 * j + 3) 0)) := by
  fun_induction words bytes generalizing j with
  | case1 a b c d rest ih =>
    cases j with
    | zero => rfl
    | succ j =>
      rw [List.getElem?_cons_succ, ih (Nat.lt_of_succ_lt_succ h)]
      simp [Nat.mul_succ]
  | case2 => exact absurd h (Nat.not_lt_zero j)

/-! ## Compression -/

/-- Words are only added to a schedule. -/
theorem extendSchedule_reverse (count : Nat) (reversed : List UInt32) :
    ∃ added, (extendSchedule count reversed).reverse = reversed.reverse ++ added := by
  induction count generalizing reversed with
  | zero => exact ⟨[], by simp [extendSchedule]⟩
  | succ count ih =>
    obtain ⟨added, h⟩ := ih (_ :: reversed)
    exact ⟨_ :: added, by rw [extendSchedule, h, List.reverse_cons, List.append_assoc]; rfl⟩

theorem getD_reverse_append {reversed added : List UInt32} {i j : Nat}
    (h : i + j + 1 = reversed.length) :
    (reversed.reverse ++ added).getD i 0 = reversed.getD j 0 := by
  have hi : i < reversed.reverse.length := by rw [List.length_reverse]; omega
  rw [List.getD_append _ _ _ _ hi, List.getD_eq_getElem _ _ hi, List.getElem_reverse,
    List.getD_eq_getElem _ _ (by omega)]
  congr 1
  omega

/-- Each word added is mixed from the sixteen before it. -/
theorem extendSchedule_recurrence (count : Nat) {reversed : List UInt32} {m : Nat}
    (hlen : reversed.length = m + 16) {s : List UInt32}
    (hs : s = (extendSchedule count reversed).reverse) {t : Nat} (ht : t < count) :
    s.getD (t + m + 16) 0 = smallSigma1 (s.getD (t + m + 14) 0) + s.getD (t + m + 9) 0 +
      smallSigma0 (s.getD (t + m + 1) 0) + s.getD (t + m) 0 := by
  induction count generalizing reversed m t with
  | zero => exact absurd ht (Nat.not_lt_zero t)
  | succ count ih =>
    rw [extendSchedule] at hs
    cases t with
    | zero =>
      obtain ⟨added, h⟩ := extendSchedule_reverse count (_ :: reversed)
      have hnext : ∀ next : UInt32, (next :: reversed).length = m + 17 := fun _ =>
        congrArg (· + 1) hlen
      rw [h] at hs
      subst hs
      rw [getD_reverse_append (j := 0) (by rw [hnext]; omega),
        getD_reverse_append (j := 2) (by rw [hnext]; omega),
        getD_reverse_append (j := 7) (by rw [hnext]; omega),
        getD_reverse_append (j := 15) (by rw [hnext]; omega),
        getD_reverse_append (j := 16) (by rw [hnext]; omega)]
      rfl
    | succ t =>
      have hrest := ih (m := m + 1) (congrArg (· + 1) hlen) hs (Nat.lt_of_succ_lt_succ ht)
      rw [show t + 1 + m = t + (m + 1) by omega]
      exact hrest

theorem length_extendSchedule (count : Nat) (reversed : List UInt32) :
    (extendSchedule count reversed).length = reversed.length + count := by
  induction count generalizing reversed with
  | zero => rfl
  | succ count ih => rw [extendSchedule, ih, List.length_cons]; omega

theorem length_schedule {block : List UInt32} (h : block.length = 16) :
    (schedule block).length = 64 := by
  rw [schedule, List.length_reverse, length_extendSchedule, List.length_reverse, h]

theorem registers_compress (s : State) (block : List UInt32) (i : Fin 8) :
    (compress s block).registers i =
      s.registers i + (rounds s (roundConstants.zip (schedule block))).registers i := by
  match i with
  | 0 | 1 | 2 | 3 | 4 | 5 | 6 | 7 => rfl

theorem isCompression_compress (s : State) {block : List UInt32} (hlen : block.length = 16)
    {b : Nat → Word} (hb : ∀ t < 16, b t = (block.getD t 0).toBitVec) :
    ∃ W v, IsCompression constant b s.registers W v (compress s block).registers := by
  have hrounds : (roundConstants.zip (schedule block)).length = 64 := by
    rw [List.length_zip, length_schedule hlen]
    rfl
  -- the registers before round `t` are those after the first `t` entries of the loop
  refine ⟨fun t => ((schedule block).getD t 0).toBitVec,
    fun t => (rounds s ((roundConstants.zip (schedule block)).take t)).registers,
    fun t ht => ?start, fun t ht => ?extend, rfl, fun t ht => ?next, fun i => ?last⟩
  case start =>
    obtain ⟨added, h⟩ := extendSchedule_reverse 48 block.reverse
    rw [hb t ht, schedule, h, List.reverse_reverse, List.getD_append _ _ _ _ (hlen ▸ ht)]
  case extend =>
    have h := extendSchedule_recurrence 48 (m := 0) (List.length_reverse.trans hlen) rfl ht
    exact congrArg UInt32.toBitVec h
  case next =>
    have hk : t < roundConstants.length := ht
    have hw : t < (schedule block).length := length_schedule hlen ▸ ht
    rw [List.take_add_one, rounds, List.foldl_append, List.getElem?_eq_getElem (hrounds ▸ ht),
      List.getElem_zip, constant, List.getD_eq_getElem _ _ hk, List.getD_eq_getElem _ _ hw]
    exact registers_round _ _ _
  case last =>
    rw [List.take_of_length_le hrounds.le, registers_compress]

/-- The blocks are compressed one after the other. -/
theorem compressAll_succ (b : Nat) (s : State) (ws : List UInt32) :
    compressAll (b + 1) s ws = compress (compressAll b s ws) ((ws.drop (16 * b)).take 16) := by
  induction b generalizing s ws with
  | zero => rfl
  | succ b ih =>
    rw [compressAll, ih, compressAll, List.drop_drop]
    rw [show 16 + 16 * b = 16 * (b + 1) by omega]

/-! ## Digits -/

theorem hexDigit_eq_digitChar {d : Nat} (h : d < 16) : Text.hexDigit d = Nat.digitChar d := by
  have : ∀ d < 16, Text.hexDigit d = Nat.digitChar d := by decide
  exact this d h

/-- The eight digits of a number of thirty-two bits. -/
def hexDigits (n : Nat) : List Nat := (List.range 8).map fun i => (n >>> (4 * (7 - i))) % 16

theorem hexDigits_lt (n : Nat) : ∀ d ∈ hexDigits n, d < 16 := by
  intro d hd
  obtain ⟨i, -, rfl⟩ := List.mem_map.mp hd
  exact Nat.mod_lt _ (by decide)

theorem ofDigits_hexDigits {n : Nat} (h : n < 2 ^ 32) :
    Nat.ofDigits 16 (hexDigits n).reverse = n := by
  have hdigits : hexDigits n = (List.range 8).map fun i => n / 16 ^ (8 - 1 - i) % 16 := by
    refine List.map_congr_left fun i _ => ?_
    rw [Nat.shiftRight_eq_div_pow, Nat.pow_mul]
  rw [hdigits, ofDigits_places]
  exact Nat.mod_eq_of_lt h

/-- The digits of several numbers, one behind the other, write one number. -/
theorem ofDigits_flatMap_hexDigits {ns : List Nat} (h : ∀ n ∈ ns, n < 2 ^ 32) :
    Nat.ofDigits 16 (ns.flatMap hexDigits).reverse = Nat.ofDigits (2 ^ 32) ns.reverse := by
  induction ns with
  | nil => rfl
  | cons n ns ih =>
    obtain ⟨hn, hns⟩ := List.forall_mem_cons.mp h
    have hlen : (ns.flatMap hexDigits).length = 8 * ns.length := by
      simp [List.length_flatMap, hexDigits, Nat.mul_comm]
    rw [List.flatMap_cons, List.reverse_append, Nat.ofDigits_append, List.reverse_cons,
      Nat.ofDigits_append, ih hns, ofDigits_hexDigits hn, Nat.ofDigits_singleton,
      List.length_reverse, List.length_reverse, hlen, Nat.pow_mul]
    rfl

theorem isHex_registers (s : State) :
    IsHex s.registers
      (String.ofList ([s.a, s.b, s.c, s.d, s.e, s.f, s.g, s.h].flatMap hexWord)) := by
  have hwords : ((List.ofFn s.registers).map BitVec.toNat) =
      [s.a, s.b, s.c, s.d, s.e, s.f, s.g, s.h].map UInt32.toNat := rfl
  have hword : ∀ w, hexWord w = (hexDigits w.toNat).map Nat.digitChar := by
    intro w
    rw [hexWord, hexDigits, List.map_map]
    exact List.map_congr_left fun i _ => hexDigit_eq_digitChar (Nat.mod_lt _ (by decide))
  refine ⟨([s.a, s.b, s.c, s.d, s.e, s.f, s.g, s.h].map UInt32.toNat).flatMap hexDigits, ?_, ?_,
    ?_, ?_⟩
  · rw [List.map_flatMap, List.flatMap_map, funext hword]
  · simp [hexDigits]
  · intro d hd
    obtain ⟨n, -, hd⟩ := List.mem_flatMap.mp hd
    exact hexDigits_lt n d hd
  · rw [hwords]
    refine ofDigits_flatMap_hexDigits fun n hn => ?_
    obtain ⟨w, -, rfl⟩ := List.mem_map.mp hn
    exact w.toNat_lt

/-! ## The digest -/

/-- What runs is a hashing. -/
theorem isHexDigest_hexDigest (message : List UInt8) :
    IsHexDigest message (hexDigest message) := by
  refine ⟨pad message, constant, fun b => (compressAll b initial (words (pad message))).registers,
    isPadding_pad message, fun t ht => isRootFraction_constant ht, isRootFraction_initial,
    fun b hb => ?_, ?_⟩
  · have hws : 16 * b + 16 ≤ (words (pad message)).length := by
      rw [length_words]
      omega
    rw [compressAll_succ]
    refine isCompression_compress _ (by rw [List.length_take, List.length_drop]; omega)
      fun t ht => ?_
    have hword := words_getElem? (show 16 * b + t < (words (pad message)).length by omega)
    rw [List.getD_eq_getElem?_getD, List.getElem?_take_of_lt ht, List.getElem?_drop, hword]
    rw [show 4 * (16 * b + t) = 64 * b + 4 * t by omega]
    exact (toBitVec_word _ _ _ _).symm
  · have hblocks : (words (pad message)).length / 16 = (pad message).length / 64 := by
      rw [length_words, Nat.div_div_eq_div_mul]
    rw [← hblocks]
    exact isHex_registers _

/-- A text is the digest of a message iff it is what is written for it. -/
theorem isHexDigest_iff {message : List UInt8} {text : String} :
    IsHexDigest message text ↔ text = hexDigest message := by
  constructor
  · exact fun h => h.unique (isHexDigest_hexDigest message)
  · rintro rfl
    exact isHexDigest_hexDigest message

/-- A message that its padding brings to two blocks. -/
example : hexDigest "abcdbcdecdefdefgefghfghighijhijkijkljklmklmnlmnomnopnopq".toUTF8.toList =
    "248d6a61d20638b8e5c026930c3e6039a33ce45964ff2167f6ecedd419db06c1" := by decide +kernel

end ReactorSynth.Sha256
