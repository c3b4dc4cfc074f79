import Ryklys.Strings

/-!
# SHA-256, HMAC, SHA-1 and Base64

The hash functions of `utils/Crypto.h` and `WebSocketUtils.h`, on 32-bit words.
-/

namespace Ryklys

/-! ## Words and padding -/

def rightRotate (v count : UInt32) : UInt32 := (v >>> count) ||| (v <<< (32 - count))

def leftRotate (v count : UInt32) : UInt32 := (v <<< count) ||| (v >>> (32 - count))

def wordAt (msg : Bytes) (pos : Nat) : UInt32 :=
  ((msg.getD pos 0).toUInt32 <<< 24) ||| ((msg.getD (pos + 1) 0).toUInt32 <<< 16) |||
    ((msg.getD (pos + 2) 0).toUInt32 <<< 8) ||| (msg.getD (pos + 3) 0).toUInt32

def wordBytes (w : UInt32) : Bytes :=
  [(w >>> 24).toUInt8, (w >>> 16).toUInt8, (w >>> 8).toUInt8, w.toUInt8]

/-- `while (msg.size() % 64 != 56) msg.push_back(0x00)`, within `fuel` rounds. -/
def padZeros : Nat → Bytes → Bytes
  | 0, msg => msg
  | fuel + 1, msg => if msg.length % 64 ≠ 56 then padZeros fuel (msg ++ [0]) else msg

/-- The padded message; the bit length is a `uint64_t`, big-endian at the end. -/
def padMessage (data : Bytes) : Bytes :=
  let bitLen : UInt64 := UInt64.ofNat (data.length * 8)
  padZeros 64 (data ++ [0x80]) ++ ([56, 48, 40, 32, 24, 16, 8, 0] : List UInt64).map fun i => (bitLen >>> i).toUInt8

def chunks (msg : Bytes) : List Bytes :=
  (List.range ((msg.length + 63) / 64)).map fun i => (msg.drop (64 * i)).take 64

namespace crypto

def initial : List UInt32 :=
  [0x6a09e667, 0xbb67ae85, 0x3c6ef372, 0xa54ff53a, 0x510e527f, 0x9b05688c, 0x1f83d9ab, 0x5be0cd19]

def k : List UInt32 :=
  [0x428a2f98, 0x71374491, 0xb5c0fbcf, 0xe9b5dba5, 0x3956c25b, 0x59f111f1, 0x923f82a4, 0xab1c5ed5,
   0xd807aa98, 0x12835b01, 0x243185be, 0x550c7dc3, 0x72be5d74, 0x80deb1fe, 0x9bdc06a7, 0xc19bf174,
   0xe49b69c1, 0xefbe4786, 0x0fc19dc6, 0x240ca1cc, 0x2de92c6f, 0x4a7484aa, 0x5cb0a9dc, 0x76f988da,
   0x983e5152, 0xa831c66d, 0xb00327c8, 0xbf597fc7, 0xc6e00bf3, 0xd5a79147, 0x06ca6351, 0x14292967,
   0x27b70a85, 0x2e1b2138, 0x4d2c6dfc, 0x53380d13, 0x650a7354, 0x766a0abb, 0x81c2c92e, 0x92722c85,
   0xa2bfe8a1, 0xa81a664b, 0xc24b8b70, 0xc76c51a3, 0xd192e819, 0xd6990624, 0xf40e3585, 0x106aa070,
   0x19a4c116, 0x1e376c08, 0x2748774c, 0x34b0bcb5, 0x391c0cb3, 0x4ed8aa4a, 0x5b9cca4f, 0x682e6ff3,
   0x748f82ee, 0x78a5636f, 0x84c87814, 0x8cc70208, 0x90befffa, 0xa4506ceb, 0xbef9a3f7, 0xc67178f2]

def extend (w : List UInt32) (i : Nat) : List UInt32 :=
  let x := w.getD (i - 15) 0
  let y := w.getD (i - 2) 0
  let s0 := rightRotate x 7 ^^^ rightRotate x 18 ^^^ (x >>> 3)
  let s1 := rightRotate y 17 ^^^ rightRotate y 19 ^^^ (y >>> 10)
  w ++ [w.getD (i - 16) 0 + s0 + w.getD (i - 7) 0 + s1]

def schedule (chunk : Bytes) : List UInt32 :=
  (List.range' 16 48).foldl extend ((List.range 16).map fun i => wordAt chunk (i * 4))

structure Working where
  a : UInt32
  b : UInt32
  c : UInt32
  d : UInt32
  e : UInt32
  f : UInt32
  g : UInt32
  hh : UInt32

def round (w : List UInt32) (s : Working) (i : Nat) : Working :=
  let S1 := rightRotate s.e 6 ^^^ rightRotate s.e 11 ^^^ rightRotate s.e 25
  let ch := (s.e &&& s.f) ^^^ (~~~ s.e &&& s.g)
  let tmp1 := s.hh + S1 + ch + k.getD i 0 + w.getD i 0
  let S0 := rightRotate s.a 2 ^^^ rightRotate s.a 13 ^^^ rightRotate s.a 22
  let maj := (s.a &&& s.b) ^^^ (s.a &&& s.c) ^^^ (s.b &&& s.c)
  let tmp2 := S0 + maj
  ⟨tmp1 + tmp2, s.a, s.b, s.c, s.d + tmp1, s.e, s.f, s.g⟩

def compress (h : List UInt32) (chunk : Bytes) : List UInt32 :=
  let w := schedule chunk
  let s := (List.range 64).foldl (round w)
    ⟨h.getD 0 0, h.getD 1 0, h.getD 2 0, h.getD 3 0, h.getD 4 0, h.getD 5 0, h.getD 6 0, h.getD 7 0⟩
  List.zipWith (· + ·) h [s.a, s.b, s.c, s.d, s.e, s.f, s.g, s.hh]

def sha256 (data : Bytes) : Bytes :=
  ((chunks (padMessage data)).foldl compress initial).flatMap wordBytes

def hmacSha256 (key message : Bytes) : Bytes :=
  let blockSize := 64
  let used := if key.length > blockSize then sha256 key else key
  let k := used ++ List.replicate (blockSize - used.length) 0
  let iKeyPad := k.map (· ^^^ 0x36)
  let oKeyPad := k.map (· ^^^ 0x5C)
  sha256 (oKeyPad ++ sha256 (iKeyPad ++ message))

end crypto

def base64Table : Bytes := bytes "ABCDEFGHIJKLMNOPQRSTUVWXYZabcdefghijklmnopqrstuvwxyz0123456789+/"

def base64Char (n : Nat) : UInt8 := base64Table.getD (n &&& 0x3F) 0

/-- `n` of one encoder round: up to three bytes in 24 bits, missing ones zero. -/
def group24 (a b c : UInt8) : Nat := (a.toNat <<< 16) ||| (b.toNat <<< 8) ||| c.toNat

namespace wsCrypto

structure Working where
  a : UInt32
  b : UInt32
  c : UInt32
  d : UInt32
  e : UInt32

def initial : Working := ⟨0x67452301, 0xEFCDAB89, 0x98BADCFE, 0x10325476, 0xC3D2E1F0⟩

def extend (w : List UInt32) (i : Nat) : List UInt32 :=
  w ++ [leftRotate (w.getD (i - 3) 0 ^^^ w.getD (i - 8) 0 ^^^ w.getD (i - 14) 0 ^^^ w.getD (i - 16) 0) 1]

def schedule (chunk : Bytes) : List UInt32 :=
  (List.range' 16 64).foldl extend ((List.range 16).map fun i => wordAt chunk (i * 4))

def roundFn (i : Nat) (b c d : UInt32) : UInt32 × UInt32 :=
  if i < 20 then ((b &&& c) ||| (~~~ b &&& d), 0x5A827999)
  else if i < 40 then (b ^^^ c ^^^ d, 0x6ED9EBA1)
  else if i < 60 then ((b &&& c) ||| (b &&& d) ||| (c &&& d), 0x8F1BBCDC)
  else (b ^^^ c ^^^ d, 0xCA62C1D6)

def round (w : List UInt32) (s : Working) (i : Nat) : Working :=
  let (f, k) := roundFn i s.b s.c s.d
  let temp := leftRotate s.a 5 + f + s.e + k + w.getD i 0
  ⟨temp, s.a, leftRotate s.b 30, s.c, s.d⟩

def compress (h : Working) (chunk : Bytes) : Working :=
  let s := (List.range 80).foldl (round (schedule chunk)) h
  ⟨h.a + s.a, h.b + s.b, h.c + s.c, h.d + s.d, h.e + s.e⟩

def sha1 (input : Bytes) : Bytes :=
  let h := (chunks (padMessage input)).foldl compress initial
  wordBytes h.a ++ wordBytes h.b ++ wordBytes h.c ++ wordBytes h.d ++ wordBytes h.e

def base64Encode : Bytes → Bytes
  | a :: b :: c :: rest =>
    let n := group24 a b c
    base64Char (n >>> 18) :: base64Char (n >>> 12) :: base64Char (n >>> 6) :: base64Char n :: base64Encode rest
  | [a, b] =>
    let n := group24 a b 0
    [base64Char (n >>> 18), base64Char (n >>> 12), base64Char (n >>> 6), 61]
  | [a] =>
    let n := group24 a 0 0
    [base64Char (n >>> 18), base64Char (n >>> 12), 61, 61]
  | [] => []

def computeAcceptKey (clientKey : Bytes) : Bytes :=
  base64Encode (sha1 (clientKey ++ bytes "258EAFA5-E914-47DA-95CA-C5AB0DC85B11"))

end wsCrypto

end Ryklys
