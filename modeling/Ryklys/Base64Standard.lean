import Ryklys.BlockHash

/-!
# RFC 4648

Base64 as a text over groups of six bits: the bits of the input, most
significant first, zeros behind the last group, one character for each group
and `=` up to whole quanta of four (`encode`).
-/

namespace Rfc4648

open BlockHash

/-! ## Bits of a number -/

/-- The `w` low bits of `n`, the most significant first. -/
def bits : Nat → Nat → List Bool
  | 0, _ => []
  | w + 1, n => n.testBit w :: bits w n

def ofBits (bs : List Bool) : Nat := bs.foldl (fun n b => 2 * n + b.toNat) 0

theorem bits_length (w n : Nat) : (bits w n).length = w := by
  induction w with
  | zero => rfl
  | succ w ih => rw [bits, List.length_cons, ih]

theorem bits_congr {w n m : Nat} (h : ∀ i < w, n.testBit i = m.testBit i) : bits w n = bits w m := by
  induction w with
  | zero => rfl
  | succ w ih => rw [bits, bits, h w (Nat.lt_succ_self w), ih fun i hi => h i (Nat.lt_succ_of_lt hi)]

theorem bits_mod (w n : Nat) : bits w (n % 2 ^ w) = bits w n := by
  apply bits_congr
  intro i hi
  rw [Nat.testBit_mod_two_pow, decide_eq_true hi, Bool.true_and]

theorem bits_zero (w : Nat) : bits w 0 = List.replicate w false := by
  induction w with
  | zero => rfl
  | succ w ih => rw [bits, ih, Nat.zero_testBit, List.replicate_succ]

theorem bits_add (u v n : Nat) : bits (u + v) n = bits u (n >>> v) ++ bits v n := by
  induction u with
  | zero => rw [Nat.zero_add, bits, List.nil_append]
  | succ u ih =>
    rw [Nat.succ_add, bits, bits, ih, Nat.testBit_shiftRight, Nat.add_comm v u]
    rfl

theorem ofBits_bits (w n : Nat) : ofBits (bits w n) = n % 2 ^ w := by
  have h : ∀ acc, (bits w n).foldl (fun n b => 2 * n + b.toNat) acc = acc * 2 ^ w + n % 2 ^ w := by
    induction w with
    | zero =>
      intro acc
      simp [bits, Nat.mod_one]
    | succ w ih =>
      intro acc
      rw [bits, List.foldl_cons, ih, Nat.pow_succ, Nat.mod_mul, Nat.toNat_testBit]
      ring
  rw [ofBits, h, Nat.zero_mul, Nat.zero_add]

/-! ## Characters -/

def char (n : Nat) : UInt8 :=
  if n < 26 then UInt8.ofNat (65 + n)
  else if n < 52 then UInt8.ofNat (97 + (n - 26))
  else if n < 62 then UInt8.ofNat (48 + (n - 52))
  else if n = 62 then 43
  else 47

/-- A group of six bits, with zeros behind the last bits of the input. -/
def sextet (g : List Bool) : Nat := ofBits (g ++ List.replicate (6 - g.length) false)

def chars (s : List UInt8) : List UInt8 := (blocks 6 (s.flatMap fun b => bits 8 b.toNat)).map fun g => char (sextet g)

def encode (s : List UInt8) : List UInt8 := chars s ++ List.replicate ((4 - (chars s).length % 4) % 4) 61

theorem sextet_bits (n : Nat) : sextet (bits 6 n) = n % 64 := by
  rw [sextet, bits_length, List.replicate_zero, List.append_nil, ofBits_bits]
  rfl

theorem sextet_short {w n : Nat} (hw : w ≤ 6) (h : n % 2 ^ (6 - w) = 0) :
    sextet (bits w (n >>> (6 - w))) = n % 64 := by
  have hzero : bits (6 - w) n = List.replicate (6 - w) false := by rw [← bits_mod, h, bits_zero]
  rw [sextet, bits_length, ← hzero, ← bits_add, Nat.add_sub_cancel' hw, ofBits_bits]
  rfl

end Rfc4648
