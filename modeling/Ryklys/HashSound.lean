import Mathlib.Data.UInt
import Ryklys.Crypto
import Ryklys.HashStandards

/-!
# SHA-256, HMAC and SHA-1 against their standards

The words, the padding, the schedule and the rounds of the code are those of
the standard, for messages of any length (`sha256_eq`, `sha1_eq`). The padding
loop ends by itself, at whole blocks, so every byte that a block reads is there
(`hmac_conforms`).
-/

namespace Ryklys

open BlockHash Fips180

/-! ## Words -/

/-- The two shifts of a rotation. -/
theorem shifts {n : Nat} (h0 : 0 < n) (h : n < 32) :
    (UInt32.ofNat n).toBitVec % 32 = BitVec.ofNat 32 n ∧
    (32 - UInt32.ofNat n).toBitVec % 32 = BitVec.ofNat 32 (32 - n) := by
  constructor
  · apply BitVec.eq_of_toNat_eq
    simp
    omega
  · apply BitVec.eq_of_toNat_eq
    simp
    omega

theorem rightRotate_eq (x : UInt32) {n : Nat} (h0 : 0 < n) (h : n < 32) :
    rightRotate x (UInt32.ofNat n) = rotr n x := by
  obtain ⟨hn, hm⟩ := shifts h0 h
  apply UInt32.toBitVec_inj.mp
  rw [rightRotate, rotr, UInt32.toBitVec_or, UInt32.toBitVec_shiftRight, UInt32.toBitVec_shiftLeft, hn, hm,
    BitVec.rotateRight_def]
  simp only [BitVec.ushiftRight_eq', BitVec.shiftLeft_eq', BitVec.toNat_ofNat]
  rw [Nat.mod_eq_of_lt (show n < 2 ^ 32 by omega), Nat.mod_eq_of_lt (show 32 - n < 2 ^ 32 by omega), Nat.mod_eq_of_lt h]

theorem leftRotate_eq (x : UInt32) {n : Nat} (h0 : 0 < n) (h : n < 32) :
    leftRotate x (UInt32.ofNat n) = rotl n x := by
  obtain ⟨hn, hm⟩ := shifts h0 h
  apply UInt32.toBitVec_inj.mp
  rw [leftRotate, rotl, UInt32.toBitVec_or, UInt32.toBitVec_shiftRight, UInt32.toBitVec_shiftLeft, hn, hm,
    BitVec.rotateLeft_def]
  simp only [BitVec.ushiftRight_eq', BitVec.shiftLeft_eq', BitVec.toNat_ofNat]
  rw [Nat.mod_eq_of_lt (show n < 2 ^ 32 by omega), Nat.mod_eq_of_lt (show 32 - n < 2 ^ 32 by omega), Nat.mod_eq_of_lt h]

theorem four_bytes (b0 b1 b2 b3 : UInt8) :
    (b0.toUInt32 <<< 24) ||| (b1.toUInt32 <<< 16) ||| (b2.toUInt32 <<< 8) ||| b3.toUInt32 =
      UInt32.ofNat (Numeral.ofBytes [b0, b1, b2, b3]) := by
  have h0 := b0.toNat_lt
  have h1 := b1.toNat_lt
  have h2 := b2.toNat_lt
  have h3 := b3.toNat_lt
  have h12 : b1.toNat <<< 16 ||| (b2.toNat * 2 ^ 8 + b3.toNat) = b1.toNat * 2 ^ 16 + (b2.toNat * 2 ^ 8 + b3.toNat) :=
    Numeral.shiftLeft_or (by omega)
  have h01 : b0.toNat <<< 24 ||| (b1.toNat * 2 ^ 16 + (b2.toNat * 2 ^ 8 + b3.toNat)) =
      b0.toNat * 2 ^ 24 + (b1.toNat * 2 ^ 16 + (b2.toNat * 2 ^ 8 + b3.toNat)) := Numeral.shiftLeft_or (by omega)
  have hof : Numeral.ofBytes [b0, b1, b2, b3] =
      b0.toNat * 2 ^ 24 + (b1.toNat * 2 ^ 16 + (b2.toNat * 2 ^ 8 + b3.toNat)) := by
    simp only [Numeral.ofBytes, List.foldl_cons, List.foldl_nil]
    rw [Numeral.shiftLeft_or h0, Numeral.shiftLeft_or h1, Numeral.shiftLeft_or h2, Numeral.shiftLeft_or h3]
    omega
  have hs : ∀ (b : UInt8) (k : UInt32), k.toNat ≤ 24 → (b.toUInt32 <<< k).toNat = b.toNat <<< k.toNat := by
    intro b k hk
    have hb := b.toNat_lt
    rw [UInt32.toNat_shiftLeft, UInt8.toNat_toUInt32, Nat.mod_eq_of_lt (show k.toNat < 32 by omega), Nat.mod_eq_of_lt]
    rw [Nat.shiftLeft_eq]
    have : 2 ^ k.toNat ≤ 2 ^ 24 := Nat.pow_le_pow_right (by decide) hk
    calc b.toNat * 2 ^ k.toNat ≤ 255 * 2 ^ 24 := Nat.mul_le_mul (by omega) this
      _ < 2 ^ 32 := by decide
  apply UInt32.toNat_inj.mp
  rw [hof, UInt32.toNat_ofNat', Nat.mod_eq_of_lt (by omega), UInt32.toNat_or, UInt32.toNat_or, UInt32.toNat_or,
    hs b0 24 (by decide), hs b1 16 (by decide), hs b2 8 (by decide), UInt8.toNat_toUInt32, Nat.or_assoc, Nat.or_assoc,
    show (24 : UInt32).toNat = 24 from rfl, show (16 : UInt32).toNat = 16 from rfl, show (8 : UInt32).toNat = 8 from rfl,
    Numeral.shiftLeft_or h3, h12, h01]

theorem wordAt_eq {block : Bytes} {t : Nat} (h : 4 * t + 4 ≤ block.length) : wordAt block (t * 4) = word block t := by
  have hget : ∀ j, block.getD (t * 4 + j) 0 = (block.drop (4 * t)).getD j 0 := by
    intro j
    rw [List.getD_eq_getElem?_getD, List.getD_eq_getElem?_getD, List.getElem?_drop, Nat.mul_comm]
  have h0 := hget 0
  rw [Nat.add_zero] at h0
  rw [wordAt, word, h0, hget 1, hget 2, hget 3]
  match hd : block.drop (4 * t) with
  | b0 :: b1 :: b2 :: b3 :: rest => exact four_bytes b0 b1 b2 b3
  | [] | [_] | [_, _] | [_, _, _] =>
    have hlen := congrArg List.length hd
    simp only [List.length_drop, List.length_cons, List.length_nil] at hlen
    omega

theorem wordBytes_eq (w : UInt32) : wordBytes w = Numeral.toBytes 4 w.toNat := by
  have hb : ∀ k : UInt32, k.toNat < 32 → (w >>> k).toUInt8 = UInt8.ofNat (w.toNat >>> k.toNat) := by
    intro k hk
    apply UInt8.toNat_inj.mp
    rw [UInt32.toNat_toUInt8, UInt32.toNat_shiftRight, Nat.mod_eq_of_lt hk, UInt8.toNat_ofNat']
  have h0 : w.toUInt8 = UInt8.ofNat w.toNat := by
    apply UInt8.toNat_inj.mp
    rw [UInt32.toNat_toUInt8, UInt8.toNat_ofNat']
  rw [wordBytes, hb 24 (by decide), hb 16 (by decide), hb 8 (by decide), h0]
  rfl

/-! ## Padding -/

/-- The loop stops at the least number of zeros, with any fuel beyond it. -/
theorem padZeros_eq (k : Nat) : ∀ (fuel : Nat) (msg : Bytes), k ≤ fuel → (msg.length + k) % 64 = 56 →
    (∀ j < k, (msg.length + j) % 64 ≠ 56) → padZeros fuel msg = msg ++ List.replicate k 0 := by
  induction k with
  | zero =>
    intro fuel msg _ h _
    rw [List.replicate_zero, List.append_nil]
    cases fuel with
    | zero => rfl
    | succ fuel =>
      rw [Nat.add_zero] at h
      rw [padZeros, if_neg (not_not.mpr h)]
  | succ k ih =>
    intro fuel msg hf h hmin
    obtain ⟨fuel, rfl⟩ := Nat.exists_eq_succ_of_ne_zero (Nat.ne_of_gt (Nat.lt_of_lt_of_le (Nat.succ_pos k) hf))
    have hlen : (msg ++ [0]).length = msg.length + 1 := List.length_append
    have h0 := hmin 0 (Nat.succ_pos k)
    rw [Nat.add_zero] at h0
    rw [padZeros, if_pos h0, ih fuel (msg ++ [0]) (Nat.le_of_succ_le_succ hf), List.append_assoc]
    · rfl
    · rw [hlen, ← h]
      congr 1
      omega
    · intro j hj
      have hj := hmin (j + 1) (Nat.succ_lt_succ hj)
      rwa [hlen, Nat.add_assoc, Nat.add_comm 1 j]

theorem padZeros_zeros (data : Bytes) {fuel : Nat} (h : 64 ≤ fuel) :
    padZeros fuel (data ++ [0x80]) = data ++ [0x80] ++ List.replicate (zeros data.length) 0 := by
  have hlen : (data ++ [(0x80 : UInt8)]).length = data.length + 1 := List.length_append
  apply padZeros_eq
  · exact Nat.le_trans (Nat.le_of_lt (zeros_lt data.length)) h
  · rw [hlen]
    exact zeros_spec data.length
  · intro j hj
    rw [hlen]
    exact zeros_min hj

theorem length_byte (n : Nat) {i : Nat} (hi : i ≤ 56) :
    (UInt64.ofNat n >>> UInt64.ofNat i).toUInt8 = UInt8.ofNat (n >>> i) := by
  apply UInt8.toNat_inj.mp
  have hw : (2 : Nat) ^ 64 = 2 ^ i * 2 ^ (64 - i) := by rw [← Nat.pow_add, Nat.add_sub_cancel' (by omega)]
  have hd : (256 : Nat) ∣ 2 ^ (64 - i) := Nat.pow_dvd_pow 2 (show 8 ≤ 64 - i by omega)
  rw [UInt64.toNat_toUInt8, UInt64.toNat_shiftRight, UInt64.toNat_ofNat', UInt64.toNat_ofNat', UInt8.toNat_ofNat',
    Nat.mod_eq_of_lt (show i < 2 ^ 64 by omega), Nat.mod_eq_of_lt (show i < 64 by omega), Nat.shiftRight_eq_div_pow,
    Nat.shiftRight_eq_div_pow, hw, Nat.mod_mul_right_div_self, Nat.mod_mod_of_dvd _ hd]

theorem padMessage_eq (data : Bytes) : padMessage data = pad data := by
  have hbytes : (([56, 48, 40, 32, 24, 16, 8, 0] : List UInt64).map fun i =>
      (UInt64.ofNat (data.length * 8) >>> i).toUInt8) = Numeral.toBytes 8 (8 * data.length) := by
    have hi : ∀ i ∈ [56, 48, 40, 32, 24, 16, 8, 0], i ≤ 56 := by decide
    have hbyte : [56, 48, 40, 32, 24, 16, 8, 0].map (fun i =>
        (UInt64.ofNat (data.length * 8) >>> UInt64.ofNat i).toUInt8) =
        [56, 48, 40, 32, 24, 16, 8, 0].map fun i => UInt8.ofNat ((data.length * 8) >>> i) :=
      List.map_congr_left fun i h => length_byte _ (hi i h)
    rw [Nat.mul_comm 8]
    exact hbyte
  rw [padMessage, pad, padZeros_zeros data (Nat.le_refl 64)]
  exact congrArg _ hbytes

theorem chunks_eq {msg : Bytes} {k : Nat} (h : msg.length = 64 * k) : chunks msg = blocks 64 msg := by
  rw [blocks_eq_map (by decide) k msg h, chunks, show (msg.length + 63) / 64 = k by omega]

theorem chunks_padMessage (data : Bytes) :
    chunks (padMessage data) = blocks 64 (pad data) ∧ ∀ b ∈ blocks 64 (pad data), b.length = 64 := by
  obtain ⟨k, hk⟩ := pad_blocks data
  rw [padMessage_eq]
  exact ⟨chunks_eq hk, fun b hb => length_of_mem_blocks (by decide) hk hb⟩

/-! ## The schedule -/

/-- The words of a block, and behind them those of the rule that `W` keeps. -/
theorem schedule_of_rule {chunk : Bytes} (h : chunk.length = 64) {W : Nat → UInt32}
    (hW : ∀ {t}, t < 16 → W t = word chunk t) {extend : List UInt32 → Nat → List UInt32}
    (he : ∀ i, 16 ≤ i → extend ((List.range i).map W) i = (List.range (i + 1)).map W) (m : Nat) :
    (List.range' 16 m).foldl extend ((List.range 16).map fun i => wordAt chunk (i * 4)) =
      (List.range (16 + m)).map W := by
  have hfirst : (List.range 16).map (fun i => wordAt chunk (i * 4)) = (List.range 16).map W := by
    apply List.map_congr_left
    intro t ht
    have ht := List.mem_range.mp ht
    rw [wordAt_eq (by omega), hW ht]
  rw [hfirst]
  exact foldl_grow he m

/-! ## SHA-256 -/

namespace crypto

def words (v : Sha256.Vars) : List UInt32 := [v.a, v.b, v.c, v.d, v.e, v.f, v.g, v.h]

def vars (s : Working) : Sha256.Vars := ⟨s.a, s.b, s.c, s.d, s.e, s.f, s.g, s.hh⟩

theorem k_roots : ∀ t < 64, ∃ i < 7,
    (i * 2 ^ 32 + (k.getD t 0).toNat) ^ 3 ≤ Sha256.primes.getD t 0 * 2 ^ (32 * 3) ∧
    Sha256.primes.getD t 0 * 2 ^ (32 * 3) < (i * 2 ^ 32 + (k.getD t 0).toNat + 1) ^ 3 := by
  decide +kernel

theorem k_eq {t : Nat} (h : t < 64) : k.getD t 0 = Sha256.k t := by
  obtain ⟨i, -, hle, hlt⟩ := k_roots t h
  rw [Sha256.k, fracRoot_eq (by decide) hle hlt, UInt32.ofNat_toNat]

theorem initial_eq : initial = words Sha256.initial := by
  rw [words, Sha256.initial, fracRoot_eq (i := 1) (h := 0x6a09e667) (by decide) (by decide) (by decide),
    fracRoot_eq (i := 1) (h := 0xbb67ae85) (by decide) (by decide) (by decide),
    fracRoot_eq (i := 2) (h := 0x3c6ef372) (by decide) (by decide) (by decide),
    fracRoot_eq (i := 2) (h := 0xa54ff53a) (by decide) (by decide) (by decide),
    fracRoot_eq (i := 3) (h := 0x510e527f) (by decide) (by decide) (by decide),
    fracRoot_eq (i := 3) (h := 0x9b05688c) (by decide) (by decide) (by decide),
    fracRoot_eq (i := 4) (h := 0x1f83d9ab) (by decide) (by decide) (by decide),
    fracRoot_eq (i := 4) (h := 0x5be0cd19) (by decide) (by decide) (by decide)]
  rfl

theorem smallSigma0_eq (x : UInt32) :
    rightRotate x 7 ^^^ rightRotate x 18 ^^^ (x >>> 3) = Sha256.smallSigma0 x := by
  rw [Sha256.smallSigma0, ← rightRotate_eq x (n := 7) (by decide) (by decide),
    ← rightRotate_eq x (n := 18) (by decide) (by decide)]
  rfl

theorem smallSigma1_eq (x : UInt32) :
    rightRotate x 17 ^^^ rightRotate x 19 ^^^ (x >>> 10) = Sha256.smallSigma1 x := by
  rw [Sha256.smallSigma1, ← rightRotate_eq x (n := 17) (by decide) (by decide),
    ← rightRotate_eq x (n := 19) (by decide) (by decide)]
  rfl

theorem bigSigma0_eq (x : UInt32) :
    rightRotate x 2 ^^^ rightRotate x 13 ^^^ rightRotate x 22 = Sha256.bigSigma0 x := by
  rw [Sha256.bigSigma0, ← rightRotate_eq x (n := 2) (by decide) (by decide),
    ← rightRotate_eq x (n := 13) (by decide) (by decide), ← rightRotate_eq x (n := 22) (by decide) (by decide)]
  rfl

theorem bigSigma1_eq (x : UInt32) :
    rightRotate x 6 ^^^ rightRotate x 11 ^^^ rightRotate x 25 = Sha256.bigSigma1 x := by
  rw [Sha256.bigSigma1, ← rightRotate_eq x (n := 6) (by decide) (by decide),
    ← rightRotate_eq x (n := 11) (by decide) (by decide), ← rightRotate_eq x (n := 25) (by decide) (by decide)]
  rfl

theorem extend_eq (chunk : Bytes) {i : Nat} (hi : 16 ≤ i) :
    extend ((List.range i).map (Sha256.schedule chunk)) i = (List.range (i + 1)).map (Sha256.schedule chunk) := by
  have hw : Sha256.schedule chunk i = Sha256.smallSigma1 (Sha256.schedule chunk (i - 2)) +
      Sha256.schedule chunk (i - 7) + Sha256.smallSigma0 (Sha256.schedule chunk (i - 15)) +
      Sha256.schedule chunk (i - 16) := by
    rw [Sha256.schedule, if_neg (Nat.not_lt.mpr hi)]
  simp only [extend, getD_map_range _ (show i - 15 < i by omega), getD_map_range _ (show i - 2 < i by omega),
    getD_map_range _ (show i - 16 < i by omega), getD_map_range _ (show i - 7 < i by omega), smallSigma0_eq,
    smallSigma1_eq]
  rw [List.range_succ, List.map_append, List.map_singleton, hw]
  congr 2
  ac_rfl

theorem schedule_eq {chunk : Bytes} (h : chunk.length = 64) :
    schedule chunk = (List.range 64).map (Sha256.schedule chunk) :=
  schedule_of_rule h (Sha256.schedule_lt chunk) (fun _ hi => extend_eq chunk hi) 48

theorem round_eq (chunk : Bytes) (s : Working) {t : Nat} (ht : t < 64) :
    vars (round ((List.range 64).map (Sha256.schedule chunk)) s t) =
      Sha256.step (Sha256.schedule chunk) (vars s) t := by
  simp only [round, Sha256.step, vars, Fips180.ch, Fips180.maj, bigSigma0_eq, bigSigma1_eq, k_eq ht,
    getD_map_range _ ht]

theorem compress_eq (v : Sha256.Vars) {chunk : Bytes} (h : chunk.length = 64) :
    compress (words v) chunk = words (Sha256.compress v chunk) := by
  have hrounds : vars ((List.range 64).foldl (round (schedule chunk)) ⟨v.a, v.b, v.c, v.d, v.e, v.f, v.g, v.h⟩) =
      (List.range 64).foldl (Sha256.step (Sha256.schedule chunk)) v := by
    apply List.foldl_rel (r := fun s v => vars s = v) rfl
    rintro t ht s v rfl
    rw [schedule_eq h, round_eq chunk s (List.mem_range.mp ht)]
  rw [Sha256.compress, ← hrounds]
  simp only [words, vars, UInt32.add_comm]
  rfl

theorem sha256_eq (data : Bytes) : sha256 data = Sha256.hash data := by
  obtain ⟨hc, hlen⟩ := chunks_padMessage data
  have hfold : (blocks 64 (pad data)).foldl compress initial = words (chain Sha256.compress Sha256.initial data) := by
    apply List.foldl_rel (r := fun h v => h = words v) initial_eq
    rintro b hb _ v rfl
    exact compress_eq v (hlen b hb)
  rw [sha256, hc, hfold, Sha256.hash, digest, ← funext wordBytes_eq]
  rfl

theorem sha256_length (data : Bytes) : (sha256 data).length = 32 := by
  rw [sha256_eq]
  rfl

theorem xor_replicate (c : UInt8) (k : Bytes) : k.map (· ^^^ c) = Rfc2104.xor k (List.replicate k.length c) := by
  rw [Rfc2104.xor]
  induction k with
  | nil => rfl
  | cons b k ih => rw [List.map_cons, List.length_cons, List.replicate_succ, List.zipWith_cons_cons, ih]

theorem hmacSha256_eq (key message : Bytes) : hmacSha256 key message = Rfc2104.hmac Sha256.hash 64 key message := by
  have hsha : sha256 = Sha256.hash := funext sha256_eq
  have hlen : (Rfc2104.keyBlock Sha256.hash 64 key).length = 64 := by
    have hle : (if 64 < key.length then Sha256.hash key else key).length ≤ 64 := by
      split
      · rw [← sha256_eq, sha256_length]
        decide
      · omega
    rw [Rfc2104.keyBlock, List.length_append, List.length_replicate, Nat.add_sub_cancel' hle]
  have hi := xor_replicate 0x36 (Rfc2104.keyBlock Sha256.hash 64 key)
  have ho := xor_replicate 0x5C (Rfc2104.keyBlock Sha256.hash 64 key)
  rw [hlen] at hi ho
  rw [Rfc2104.hmac, Rfc2104.ipad, Rfc2104.opad, ← hi, ← ho, ← hsha]
  rfl

end crypto

/-! ## SHA-1 -/

namespace wsCrypto

def vars (s : Working) : Sha1.Vars := ⟨s.a, s.b, s.c, s.d, s.e⟩

theorem choose_eq (b c d : UInt32) : (b &&& c) ||| (~~~ b &&& d) = Fips180.ch b c d := by
  apply UInt32.toBitVec_inj.mp
  apply BitVec.eq_of_getLsbD_eq
  intro i hi
  simp only [Fips180.ch, UInt32.toBitVec_or, UInt32.toBitVec_and, UInt32.toBitVec_not, UInt32.toBitVec_xor,
    BitVec.getLsbD_or, BitVec.getLsbD_and, BitVec.getLsbD_not, BitVec.getLsbD_xor]
  cases b.toBitVec.getLsbD i <;> simp

theorem majority_eq (b c d : UInt32) : (b &&& c) ||| (b &&& d) ||| (c &&& d) = Fips180.maj b c d := by
  apply UInt32.toBitVec_inj.mp
  apply BitVec.eq_of_getLsbD_eq
  intro i hi
  simp only [Fips180.maj, UInt32.toBitVec_or, UInt32.toBitVec_and, UInt32.toBitVec_xor, BitVec.getLsbD_or,
    BitVec.getLsbD_and, BitVec.getLsbD_xor]
  cases b.toBitVec.getLsbD i <;> cases c.toBitVec.getLsbD i <;> cases d.toBitVec.getLsbD i <;> rfl

theorem roundFn_eq (t : Nat) (b c d : UInt32) : roundFn t b c d = (Sha1.f t b c d, Sha1.k t) := by
  rw [roundFn, Sha1.f, Sha1.k]
  split
  · rw [choose_eq]
  split
  · rfl
  split
  · rw [majority_eq]
  · rfl

theorem extend_eq (chunk : Bytes) {i : Nat} (hi : 16 ≤ i) :
    extend ((List.range i).map (Sha1.schedule chunk)) i = (List.range (i + 1)).map (Sha1.schedule chunk) := by
  have hw : Sha1.schedule chunk i = rotl 1 (Sha1.schedule chunk (i - 3) ^^^ Sha1.schedule chunk (i - 8) ^^^
      Sha1.schedule chunk (i - 14) ^^^ Sha1.schedule chunk (i - 16)) := by
    rw [Sha1.schedule, if_neg (Nat.not_lt.mpr hi)]
  rw [extend, getD_map_range _ (show i - 3 < i by omega), getD_map_range _ (show i - 8 < i by omega),
    getD_map_range _ (show i - 14 < i by omega), getD_map_range _ (show i - 16 < i by omega), List.range_succ,
    List.map_append, List.map_singleton, hw, ← leftRotate_eq _ (n := 1) (by decide) (by decide)]
  rfl

theorem schedule_eq {chunk : Bytes} (h : chunk.length = 64) :
    schedule chunk = (List.range 80).map (Sha1.schedule chunk) :=
  schedule_of_rule h (Sha1.schedule_lt chunk) (fun _ hi => extend_eq chunk hi) 64

theorem round_eq (chunk : Bytes) (s : Working) {t : Nat} (ht : t < 80) :
    vars (round ((List.range 80).map (Sha1.schedule chunk)) s t) = Sha1.step (Sha1.schedule chunk) (vars s) t := by
  rw [round, roundFn_eq]
  simp only [getD_map_range _ ht, vars, Sha1.step, ← leftRotate_eq _ (n := 5) (by decide) (by decide),
    ← leftRotate_eq _ (n := 30) (by decide) (by decide)]
  rfl

theorem compress_eq (s : Working) {chunk : Bytes} (h : chunk.length = 64) :
    vars (compress s chunk) = Sha1.compress (vars s) chunk := by
  have hrounds : vars ((List.range 80).foldl (round (schedule chunk)) s) =
      (List.range 80).foldl (Sha1.step (Sha1.schedule chunk)) (vars s) := by
    apply List.foldl_rel (r := fun s v => vars s = v) rfl
    rintro t ht s v rfl
    rw [schedule_eq h, round_eq chunk s (List.mem_range.mp ht)]
  rw [Sha1.compress, ← hrounds]
  simp only [compress, vars, UInt32.add_comm]

theorem sha1_eq (input : Bytes) : sha1 input = Sha1.hash input := by
  obtain ⟨hc, hlen⟩ := chunks_padMessage input
  have hfold : vars ((blocks 64 (pad input)).foldl compress initial) = chain Sha1.compress Sha1.initial input := by
    apply List.foldl_rel (r := fun s v => vars s = v) rfl
    rintro b hb s v rfl
    exact compress_eq s (hlen b hb)
  rw [sha1, hc, Sha1.hash, ← hfold, digest, ← funext wordBytes_eq]
  rfl

theorem sha1_length (input : Bytes) : (sha1 input).length = 20 := rfl

end wsCrypto

/-! ## The padded message -/

theorem padZeros_ends (data : Bytes) :
    (∀ fuel, 64 ≤ fuel → padZeros fuel (data ++ [0x80]) = padZeros 64 (data ++ [0x80])) ∧
    (padZeros 64 (data ++ [0x80])).length % 64 = 56 := by
  have h := padZeros_zeros data (Nat.le_refl 64)
  constructor
  · intro fuel hf
    rw [h, padZeros_zeros data hf]
  · rw [h, List.length_append, List.length_append, List.length_replicate]
    exact zeros_spec data.length

theorem padMessage_length (data : Bytes) : (padMessage data).length % 64 = 0 := by
  obtain ⟨k, hk⟩ := pad_blocks data
  rw [padMessage_eq, hk]
  exact Nat.mul_mod_right 64 k

theorem read_lt {size offset : Nat} (hs : size % 64 = 0) (ho : offset % 64 = 0) (h : offset < size) {i j : Nat}
    (hi : i < 16) (hj : j < 4) : offset + i * 4 + j < size := by
  omega

/-- HMAC-SHA256 is that of the standards, and the padding loop ends by itself
at whole blocks, so that every byte a block reads is there. -/
theorem hmac_conforms (key message : Bytes) :
    crypto.hmacSha256 key message = Rfc2104.hmac Sha256.hash 64 key message ∧
    ∀ data : Bytes,
      (∀ fuel, 64 ≤ fuel → padZeros fuel (data ++ [0x80]) = padZeros 64 (data ++ [0x80])) ∧
      (padZeros 64 (data ++ [0x80])).length % 64 = 56 ∧ (padMessage data).length % 64 = 0 ∧
      ∀ offset, offset % 64 = 0 → offset < (padMessage data).length →
        ∀ i < 16, ∀ j < 4, offset + i * 4 + j < (padMessage data).length := by
  refine ⟨crypto.hmacSha256_eq key message, fun data => ?_⟩
  obtain ⟨hfuel, hend⟩ := padZeros_ends data
  have hlen := padMessage_length data
  exact ⟨hfuel, hend, hlen, fun offset ho h i hi j hj => read_lt hlen ho h hi hj⟩

end Ryklys
