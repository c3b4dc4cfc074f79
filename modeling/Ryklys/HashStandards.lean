import Ryklys.BlockHash

/-!
# FIPS 180-4 and RFC 2104

SHA-1, SHA-256 and HMAC as their standards state them: words are numbers of
32 bits with the rotations of bit vectors, the message schedule is the sequence
`W_t`, and the constants of SHA-256 are those that the standard derives from
the roots of the first primes.
-/

namespace Fips180

open BlockHash

/-! ## Words -/

def rotr (n : Nat) (x : UInt32) : UInt32 := ⟨x.toBitVec.rotateRight n⟩

def rotl (n : Nat) (x : UInt32) : UInt32 := ⟨x.toBitVec.rotateLeft n⟩

def shr (n : Nat) (x : UInt32) : UInt32 := ⟨x.toBitVec >>> n⟩

def ch (x y z : UInt32) : UInt32 := (x &&& y) ^^^ (~~~ x &&& z)

def maj (x y z : UInt32) : UInt32 := (x &&& y) ^^^ (x &&& z) ^^^ (y &&& z)

def parity (x y z : UInt32) : UInt32 := x ^^^ y ^^^ z

/-- `M_t`, the words of a block. -/
def word (block : List UInt8) (t : Nat) : UInt32 := UInt32.ofNat (Numeral.ofBytes ((block.drop (4 * t)).take 4))

def digest (words : List UInt32) : List UInt8 := words.flatMap fun w => Numeral.toBytes 4 w.toNat

/-! ## SHA-1 -/

namespace Sha1

structure Vars where
  a : UInt32
  b : UInt32
  c : UInt32
  d : UInt32
  e : UInt32

def initial : Vars := ⟨0x67452301, 0xefcdab89, 0x98badcfe, 0x10325476, 0xc3d2e1f0⟩

def f (t : Nat) : UInt32 → UInt32 → UInt32 → UInt32 :=
  if t < 20 then ch else if t < 40 then parity else if t < 60 then maj else parity

def k (t : Nat) : UInt32 :=
  if t < 20 then 0x5a827999 else if t < 40 then 0x6ed9eba1 else if t < 60 then 0x8f1bbcdc else 0xca62c1d6

/-- `W_t`. -/
def schedule (block : List UInt8) (t : Nat) : UInt32 :=
  if t < 16 then word block t
  else
    rotl 1
      (schedule block (t - 3) ^^^ schedule block (t - 8) ^^^ schedule block (t - 14) ^^^ schedule block (t - 16))

def step (w : Nat → UInt32) (v : Vars) (t : Nat) : Vars :=
  ⟨rotl 5 v.a + f t v.b v.c v.d + v.e + k t + w t, v.a, rotl 30 v.b, v.c, v.d⟩

def compress (h : Vars) (block : List UInt8) : Vars :=
  let v := (List.range 80).foldl (step (schedule block)) h
  ⟨v.a + h.a, v.b + h.b, v.c + h.c, v.d + h.d, v.e + h.e⟩

def hash (m : List UInt8) : List UInt8 :=
  let h := chain compress initial m
  digest [h.a, h.b, h.c, h.d, h.e]

end Sha1

/-! ## SHA-256 -/

/-- The first 32 bits of the fractional part of the `n`th root of `p`: the root
moved by 32 bits, its integer part cut to 32 bits. -/
def fracRoot (n p : Nat) : UInt32 :=
  UInt32.ofNat (Nat.findGreatest (fun r => r ^ n ≤ p * 2 ^ (32 * n)) (p * 2 ^ (32 * n)))

namespace Sha256

def primes : List Nat :=
  [2, 3, 5, 7, 11, 13, 17, 19, 23, 29, 31, 37, 41, 43, 47, 53, 59, 61, 67, 71, 73, 79, 83, 89, 97, 101, 103, 107, 109,
   113, 127, 131, 137, 139, 149, 151, 157, 163, 167, 173, 179, 181, 191, 193, 197, 199, 211, 223, 227, 229, 233, 239,
   241, 251, 257, 263, 269, 271, 277, 281, 283, 293, 307, 311]

structure Vars where
  a : UInt32
  b : UInt32
  c : UInt32
  d : UInt32
  e : UInt32
  f : UInt32
  g : UInt32
  h : UInt32

def initial : Vars :=
  ⟨fracRoot 2 2, fracRoot 2 3, fracRoot 2 5, fracRoot 2 7, fracRoot 2 11, fracRoot 2 13, fracRoot 2 17, fracRoot 2 19⟩

def k (t : Nat) : UInt32 := fracRoot 3 (primes.getD t 0)

def bigSigma0 (x : UInt32) : UInt32 := rotr 2 x ^^^ rotr 13 x ^^^ rotr 22 x

def bigSigma1 (x : UInt32) : UInt32 := rotr 6 x ^^^ rotr 11 x ^^^ rotr 25 x

def smallSigma0 (x : UInt32) : UInt32 := rotr 7 x ^^^ rotr 18 x ^^^ shr 3 x

def smallSigma1 (x : UInt32) : UInt32 := rotr 17 x ^^^ rotr 19 x ^^^ shr 10 x

/-- `W_t`. -/
def schedule (block : List UInt8) (t : Nat) : UInt32 :=
  if t < 16 then word block t
  else smallSigma1 (schedule block (t - 2)) + schedule block (t - 7) + smallSigma0 (schedule block (t - 15)) +
    schedule block (t - 16)

def step (w : Nat → UInt32) (v : Vars) (t : Nat) : Vars :=
  let t1 := v.h + bigSigma1 v.e + ch v.e v.f v.g + k t + w t
  let t2 := bigSigma0 v.a + maj v.a v.b v.c
  ⟨t1 + t2, v.a, v.b, v.c, v.d + t1, v.e, v.f, v.g⟩

def compress (h : Vars) (block : List UInt8) : Vars :=
  let v := (List.range 64).foldl (step (schedule block)) h
  ⟨v.a + h.a, v.b + h.b, v.c + h.c, v.d + h.d, v.e + h.e, v.f + h.f, v.g + h.g, v.h + h.h⟩

def hash (m : List UInt8) : List UInt8 :=
  let h := chain compress initial m
  digest [h.a, h.b, h.c, h.d, h.e, h.f, h.g, h.h]

end Sha256

/-! ## The standard's recursions -/

theorem Sha1.schedule_lt (block : List UInt8) {t : Nat} (h : t < 16) : Sha1.schedule block t = word block t := by
  rw [Sha1.schedule, if_pos h]

theorem Sha256.schedule_lt (block : List UInt8) {t : Nat} (h : t < 16) : Sha256.schedule block t = word block t := by
  rw [Sha256.schedule, if_pos h]

/-- `i` is the integer part of the root, `h` the 32 bits behind it. -/
theorem fracRoot_eq {n p i h : Nat} (hn : 0 < n) (hle : (i * 2 ^ 32 + h) ^ n ≤ p * 2 ^ (32 * n))
    (hlt : p * 2 ^ (32 * n) < (i * 2 ^ 32 + h + 1) ^ n) : fracRoot n p = UInt32.ofNat h := by
  have hr : i * 2 ^ 32 + h ≤ (i * 2 ^ 32 + h) ^ n := Nat.le_self_pow (Nat.ne_of_gt hn) _
  have hroot : Nat.findGreatest (fun r => r ^ n ≤ p * 2 ^ (32 * n)) (p * 2 ^ (32 * n)) = i * 2 ^ 32 + h := by
    rw [Nat.findGreatest_eq_iff]
    refine ⟨hr.trans hle, fun _ => hle, fun m hm _ hpow => ?_⟩
    have hmono : (i * 2 ^ 32 + h + 1) ^ n ≤ m ^ n := Nat.pow_le_pow_left hm n
    omega
  rw [fracRoot, hroot]
  apply UInt32.toNat_inj.mp
  rw [UInt32.toNat_ofNat', UInt32.toNat_ofNat', Nat.mul_add_mod_self_right]

end Fips180

/-! ## RFC 2104 -/

namespace Rfc2104

def xor (a b : List UInt8) : List UInt8 := List.zipWith (· ^^^ ·) a b

def ipad (blockSize : Nat) : List UInt8 := List.replicate blockSize 0x36

def opad (blockSize : Nat) : List UInt8 := List.replicate blockSize 0x5C

/-- The key in a block: hashed if it is longer, and with zeros behind it. -/
def keyBlock (hash : List UInt8 → List UInt8) (blockSize : Nat) (key : List UInt8) : List UInt8 :=
  let key := if blockSize < key.length then hash key else key
  key ++ List.replicate (blockSize - key.length) 0

def hmac (hash : List UInt8 → List UInt8) (blockSize : Nat) (key text : List UInt8) : List UInt8 :=
  let k := keyBlock hash blockSize key
  hash (xor k (opad blockSize) ++ hash (xor k (ipad blockSize) ++ text))

end Rfc2104
