import Mathlib.Tactic.NormNum
import Ryklys.Crypto

/-!
# Base64URL

`jwt::Base64URLEncode` and `jwt::Base64URLDecode`. Decoding packs four table
entries into a word and cuts it into bytes, so it undoes the encoder group by
group, with the padding standing for the entries of a short last group
(`base64UrlDecode_encode`).
-/

namespace Ryklys

open Numeral

namespace jwt

def encodeGroups : Bytes → Bytes
  | a :: b :: c :: rest =>
    let n := group24 a b c
    base64Char (n >>> 18) :: base64Char (n >>> 12) :: base64Char (n >>> 6) :: base64Char n :: encodeGroups rest
  | [a, b] =>
    let n := group24 a b 0
    [base64Char (n >>> 18), base64Char (n >>> 12), base64Char (n >>> 6)]
  | [a] =>
    let n := group24 a 0 0
    [base64Char (n >>> 18), base64Char (n >>> 12)]
  | [] => []

def toUrlChar (c : UInt8) : UInt8 := if c = 43 then 45 else if c = 47 then 95 else c

def base64UrlEncode (data : Bytes) : Bytes := (encodeGroups data).map toUrlChar

def ofUrlChar (c : UInt8) : UInt8 := if c = 45 then 43 else if c = 95 then 47 else c

/-- `while (b64.size() % 4 != 0) b64.push_back('=')`, within `fuel` rounds. -/
def padEquals : Nat → Bytes → Bytes
  | 0, b64 => b64
  | fuel + 1, b64 => if b64.length % 4 ≠ 0 then padEquals fuel (b64 ++ [61]) else b64

def lookup : List Int :=
  [-1,-1,-1,-1,-1,-1,-1,-1,-1,-1,-1,-1,-1,-1,-1,-1,
   -1,-1,-1,-1,-1,-1,-1,-1,-1,-1,-1,-1,-1,-1,-1,-1,
   -1,-1,-1,-1,-1,-1,-1,-1,-1,-1,-1,62,-1,-1,-1,63,
   52,53,54,55,56,57,58,59,60,61,-1,-1,-1, 0,-1,-1,
   -1, 0, 1, 2, 3, 4, 5, 6, 7, 8, 9,10,11,12,13,14,
   15,16,17,18,19,20,21,22,23,24,25,-1,-1,-1,-1,-1,
   -1,26,27,28,29,30,31,32,33,34,35,36,37,38,39,40,
   41,42,43,44,45,46,47,48,49,50,51,-1,-1,-1,-1,-1]

/-- A table entry as a `uint32_t`. Past the table there is nothing to read; the
model reads -1 there. -/
def entry (c : UInt8) : UInt32 := UInt32.ofInt (lookup.getD c.toNat (-1))

def decodeGroups : Bytes → Bytes
  | c0 :: c1 :: c2 :: c3 :: rest =>
    let n := (entry c0 <<< 18) ||| (entry c1 <<< 12) ||| (entry c2 <<< 6) ||| entry c3
    (n >>> 16).toUInt8 ::
      ((if c2 ≠ 61 then [(n >>> 8).toUInt8] else []) ++ (if c3 ≠ 61 then [n.toUInt8] else []) ++ decodeGroups rest)
  | _ => []

def base64UrlDecode (input : Bytes) : Bytes := decodeGroups (padEquals 3 (input.map ofUrlChar))

/-! ## Characters -/

theorem base64Char_mod (n : Nat) : base64Char n = base64Char (n % 64) := by
  rw [base64Char, base64Char, show (0x3F : Nat) = 2 ^ 6 - 1 from rfl, Nat.and_two_pow_sub_one_eq_mod,
    Nat.and_two_pow_sub_one_eq_mod, Nat.mod_mod]

set_option maxRecDepth 8192 in
theorem base64Char_spec : ∀ n : Fin 64, ofUrlChar (toUrlChar (base64Char n.val)) = base64Char n.val ∧
    entry (base64Char n.val) = UInt32.ofNat n.val ∧ base64Char n.val ≠ 61 ∧ toUrlChar (base64Char n.val) ≠ 46 := by
  decide

theorem ofUrlChar_base64Char (n : Nat) : ofUrlChar (toUrlChar (base64Char n)) = base64Char n := by
  rw [base64Char_mod]
  exact (base64Char_spec ⟨n % 64, Nat.mod_lt _ (by decide)⟩).1

theorem entry_base64Char (n : Nat) : entry (base64Char n) = UInt32.ofNat (n % 64) := by
  rw [base64Char_mod]
  exact (base64Char_spec ⟨n % 64, Nat.mod_lt _ (by decide)⟩).2.1

theorem base64Char_ne_equals (n : Nat) : base64Char n ≠ 61 := by
  rw [base64Char_mod]
  exact (base64Char_spec ⟨n % 64, Nat.mod_lt _ (by decide)⟩).2.2.1

theorem base64Char_ne_dot (n : Nat) : toUrlChar (base64Char n) ≠ 46 := by
  rw [base64Char_mod]
  exact (base64Char_spec ⟨n % 64, Nat.mod_lt _ (by decide)⟩).2.2.2

theorem entry_equals : entry 61 = UInt32.ofNat 0 := by decide

/-! ## One group -/

theorem group24_eq (a b c : UInt8) : group24 a b c = a.toNat * 65536 + b.toNat * 256 + c.toNat := by
  have hb := b.toNat_lt
  have hc := c.toNat_lt
  have hbc : b.toNat <<< 8 ||| c.toNat = b.toNat * 256 + c.toNat := shiftLeft_or hc
  rw [group24, Nat.or_assoc, hbc, shiftLeft_or (by omega)]
  omega

theorem packed {x0 x1 x2 x3 : Nat} (h0 : x0 < 64) (h1 : x1 < 64) (h2 : x2 < 64) (h3 : x3 < 64) :
    ((UInt32.ofNat x0 <<< 18) ||| (UInt32.ofNat x1 <<< 12) ||| (UInt32.ofNat x2 <<< 6) ||| UInt32.ofNat x3).toNat =
      x0 * 262144 + x1 * 4096 + x2 * 64 + x3 := by
  have hs : ∀ {x : Nat} (k : UInt32), x < 64 → k.toNat ≤ 18 → (UInt32.ofNat x <<< k).toNat = x <<< k.toNat := by
    intro x k hx hk
    rw [UInt32.toNat_shiftLeft, UInt32.toNat_ofNat', Nat.mod_eq_of_lt (show x < 2 ^ 32 by omega),
      Nat.mod_eq_of_lt (show k.toNat < 32 by omega), Nat.mod_eq_of_lt]
    rw [Nat.shiftLeft_eq]
    have : 2 ^ k.toNat ≤ 2 ^ 18 := Nat.pow_le_pow_right (by decide) hk
    calc x * 2 ^ k.toNat ≤ 63 * 2 ^ 18 := Nat.mul_le_mul (by omega) this
      _ < 2 ^ 32 := by norm_num
  rw [UInt32.toNat_or, UInt32.toNat_or, UInt32.toNat_or, hs 18 h0 (by decide), hs 12 h1 (by decide),
    hs 6 h2 (by decide), UInt32.toNat_ofNat', Nat.mod_eq_of_lt (show x3 < 2 ^ 32 by omega), Nat.or_assoc,
    Nat.or_assoc]
  have e2 : x2 <<< 6 ||| x3 = x2 * 64 + x3 := shiftLeft_or h3
  have e1 : x1 <<< 12 ||| (x2 * 64 + x3) = x1 * 4096 + (x2 * 64 + x3) := shiftLeft_or (by omega)
  have e0 : x0 <<< 18 ||| (x1 * 4096 + (x2 * 64 + x3)) = x0 * 262144 + (x1 * 4096 + (x2 * 64 + x3)) :=
    shiftLeft_or (by omega)
  rw [show (6 : UInt32).toNat = 6 from rfl, show (12 : UInt32).toNat = 12 from rfl,
    show (18 : UInt32).toNat = 18 from rfl, e2, e1, e0]
  omega

theorem packed_group (a b c : UInt8) :
    ((entry (base64Char (group24 a b c >>> 18)) <<< 18) ||| (entry (base64Char (group24 a b c >>> 12)) <<< 12) |||
      (entry (base64Char (group24 a b c >>> 6)) <<< 6) ||| entry (base64Char (group24 a b c))).toNat =
      a.toNat * 65536 + b.toNat * 256 + c.toNat := by
  have ha := a.toNat_lt
  have hb := b.toNat_lt
  have hc := c.toNat_lt
  rw [entry_base64Char, entry_base64Char, entry_base64Char, entry_base64Char, packed (Nat.mod_lt _ (by decide))
    (Nat.mod_lt _ (by decide)) (Nat.mod_lt _ (by decide)) (Nat.mod_lt _ (by decide)), group24_eq]
  simp only [Nat.shiftRight_eq_div_pow]
  omega

theorem cut_word {n : UInt32} {a b c : UInt8} (h : n.toNat = a.toNat * 65536 + b.toNat * 256 + c.toNat) :
    (n >>> 16).toUInt8 = a ∧ (n >>> 8).toUInt8 = b ∧ n.toUInt8 = c := by
  have ha := a.toNat_lt
  have hb := b.toNat_lt
  have hc := c.toNat_lt
  have hs : ∀ k : UInt32, k.toNat < 32 → (n >>> k).toUInt8.toNat = n.toNat / 2 ^ k.toNat % 256 := by
    intro k hk
    rw [UInt32.toNat_toUInt8, UInt32.toNat_shiftRight, Nat.mod_eq_of_lt hk, Nat.shiftRight_eq_div_pow]
  have h16 := hs 16 (by decide)
  have h8 := hs 8 (by decide)
  rw [show (16 : UInt32).toNat = 16 from rfl] at h16
  rw [show (8 : UInt32).toNat = 8 from rfl] at h8
  refine ⟨UInt8.toNat_inj.mp ?_, UInt8.toNat_inj.mp ?_, UInt8.toNat_inj.mp ?_⟩
  · rw [h16, h]; omega
  · rw [h8, h]; omega
  · rw [UInt32.toNat_toUInt8, h]; omega

theorem entry_padding {n : Nat} (h : n % 64 = 0) : entry 61 = entry (base64Char n) := by
  rw [entry_base64Char, h, entry_equals]

/-! ## The round trip -/

theorem padEquals_append {x : Bytes} (h : x.length % 4 = 0) : ∀ (fuel : Nat) (t : Bytes),
    padEquals fuel (x ++ t) = x ++ padEquals fuel t
  | 0, _ => rfl
  | fuel + 1, t => by
    have hlen : (x ++ t).length % 4 = t.length % 4 := by rw [List.length_append]; omega
    rw [padEquals, padEquals, hlen]
    split
    · rw [List.append_assoc, padEquals_append h fuel]
    · rfl

theorem decodeGroups_encodeGroups : ∀ data : Bytes, decodeGroups (padEquals 3 (encodeGroups data)) = data
  | a :: b :: c :: rest => by
    have hpad := padEquals_append (x := [base64Char (group24 a b c >>> 18), base64Char (group24 a b c >>> 12),
      base64Char (group24 a b c >>> 6), base64Char (group24 a b c)]) (by simp) 3 (encodeGroups rest)
    obtain ⟨h1, h2, h3⟩ := cut_word (packed_group a b c)
    simp only [List.cons_append, List.nil_append] at hpad
    rw [encodeGroups, hpad, decodeGroups, if_pos (base64Char_ne_equals _), if_pos (base64Char_ne_equals _), h1, h2, h3,
      decodeGroups_encodeGroups rest]
    rfl
  | [a, b] => by
    have hz : group24 a b 0 % 64 = 0 := by rw [group24_eq]; simp; omega
    have hp := packed_group a b 0
    rw [← entry_padding hz] at hp
    obtain ⟨h1, h2, -⟩ := cut_word hp
    have hpad : padEquals 3 (encodeGroups [a, b]) = [base64Char (group24 a b 0 >>> 18),
      base64Char (group24 a b 0 >>> 12), base64Char (group24 a b 0 >>> 6), 61] := by simp [padEquals, encodeGroups]
    rw [hpad, decodeGroups, if_pos (base64Char_ne_equals _), if_neg (by simp), h1, h2]
    rfl
  | [a] => by
    have hz : group24 a 0 0 % 64 = 0 := by rw [group24_eq]; simp; omega
    have hz' : (group24 a 0 0 >>> 6) % 64 = 0 := by rw [group24_eq, Nat.shiftRight_eq_div_pow]; simp; omega
    have hp := packed_group a 0 0
    rw [← entry_padding hz, ← entry_padding hz'] at hp
    obtain ⟨h1, -, -⟩ := cut_word hp
    have hpad : padEquals 3 (encodeGroups [a]) = [base64Char (group24 a 0 0 >>> 18),
      base64Char (group24 a 0 0 >>> 12), 61, 61] := by simp [padEquals, encodeGroups]
    rw [hpad, decodeGroups, if_neg (by simp), if_neg (by simp), h1]
    rfl
  | [] => rfl

theorem encodeGroups_chars : ∀ data : Bytes, ∀ c ∈ encodeGroups data, ∃ n, c = base64Char n
  | a :: b :: c :: rest, d, hd => by
    simp only [encodeGroups, List.mem_cons] at hd
    rcases hd with rfl | rfl | rfl | rfl | hd
    · exact ⟨_, rfl⟩
    · exact ⟨_, rfl⟩
    · exact ⟨_, rfl⟩
    · exact ⟨_, rfl⟩
    · exact encodeGroups_chars rest d hd
  | [a, b], d, hd => by
    simp only [encodeGroups, List.mem_cons, List.not_mem_nil, or_false] at hd
    rcases hd with rfl | rfl | rfl <;> exact ⟨_, rfl⟩
  | [a], d, hd => by
    simp only [encodeGroups, List.mem_cons, List.not_mem_nil, or_false] at hd
    rcases hd with rfl | rfl <;> exact ⟨_, rfl⟩
  | [], d, hd => by simp [encodeGroups] at hd

/-- **Round trip.** Decoding undoes encoding, for data of any length. -/
theorem base64UrlDecode_encode (data : Bytes) : base64UrlDecode (base64UrlEncode data) = data := by
  have hmap : (encodeGroups data).map (ofUrlChar ∘ toUrlChar) = encodeGroups data := by
    refine (List.map_congr_left fun c hc => ?_).trans (List.map_id _)
    obtain ⟨n, rfl⟩ := encodeGroups_chars data c hc
    exact ofUrlChar_base64Char n
  rw [base64UrlDecode, base64UrlEncode, List.map_map, hmap, decodeGroups_encodeGroups]

theorem dot_not_mem (data : Bytes) : 46 ∉ base64UrlEncode data := by
  intro h
  obtain ⟨c, hc, he⟩ := List.mem_map.mp h
  obtain ⟨n, rfl⟩ := encodeGroups_chars data c hc
  exact base64Char_ne_dot n he

end jwt

end Ryklys
