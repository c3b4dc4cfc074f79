import Ryklys.Base64Standard
import Ryklys.Base64Url
import Ryklys.HashSound

/-!
# Base64 against its standard, and the two encoders against each other

The padded encoder writes the standard's text (`base64Encode_eq`), so the accept
key of the upgrade is the one the standards ask for (`computeAcceptKey_conforms`).
Without its padding, and in the other alphabet, it is the encoder of the tokens,
and the decoder of the tokens reads both.
-/

namespace Ryklys

open Fips180 Rfc4648

/-! ## Groups of bits -/

set_option maxRecDepth 8192 in
theorem base64Char_lt : ∀ i : Fin 64, base64Char i.val = char i.val := by decide

theorem base64Char_eq (n : Nat) : base64Char n = char (n % 64) := by
  rw [jwt.base64Char_mod]
  exact base64Char_lt ⟨n % 64, Nat.mod_lt _ (by decide)⟩

/-- The three bytes of a group, as bits of its word. -/
theorem group24_bits (a b c : UInt8) : bits 8 a.toNat = bits 8 (group24 a b c >>> 16) ∧
    bits 8 b.toNat = bits 8 (group24 a b c >>> 8) ∧ bits 8 c.toNat = bits 8 (group24 a b c) := by
  have hb := b.toNat_lt
  have hc := c.toNat_lt
  rw [jwt.group24_eq]
  refine ⟨?_, ?_, ?_⟩
  · rw [Nat.shiftRight_eq_div_pow, show (a.toNat * 65536 + b.toNat * 256 + c.toNat) / 2 ^ 16 = a.toNat by omega]
  · rw [← bits_mod 8 (_ >>> 8), Nat.shiftRight_eq_div_pow,
      show (a.toNat * 65536 + b.toNat * 256 + c.toNat) / 2 ^ 8 % 2 ^ 8 = b.toNat by omega]
  · rw [← bits_mod 8 (_ + _), show (a.toNat * 65536 + b.toNat * 256 + c.toNat) % 2 ^ 8 = c.toNat by omega]

/-- A byte is cut where a group of six bits ends. -/
theorem bits_cut (n : Nat) : bits 8 (n >>> 16) = bits 6 (n >>> 18) ++ bits 2 (n >>> 16) ∧
    bits 8 (n >>> 8) = bits 4 (n >>> 12) ++ bits 4 (n >>> 8) ∧ bits 8 n = bits 2 (n >>> 6) ++ bits 6 n := by
  refine ⟨?_, ?_, bits_add 2 6 n⟩
  · rw [bits_add 6 2, ← Nat.shiftRight_add]
  · rw [bits_add 4 4, ← Nat.shiftRight_add]

/-- A group of six bits is joined where a byte ends. -/
theorem bits_join (n : Nat) : bits 2 (n >>> 16) ++ bits 4 (n >>> 12) = bits 6 (n >>> 12) ∧
    bits 4 (n >>> 8) ++ bits 2 (n >>> 6) = bits 6 (n >>> 6) := by
  constructor
  · rw [bits_add 2 4, ← Nat.shiftRight_add]
  · rw [bits_add 4 2, ← Nat.shiftRight_add]

theorem chars_three (a b c : UInt8) (rest : Bytes) :
    chars (a :: b :: c :: rest) = base64Char (group24 a b c >>> 18) :: base64Char (group24 a b c >>> 12) ::
      base64Char (group24 a b c >>> 6) :: base64Char (group24 a b c) :: chars rest := by
  obtain ⟨ha, hb, hc⟩ := group24_bits a b c
  obtain ⟨c1, c2, c3⟩ := bits_cut (group24 a b c)
  obtain ⟨j1, j2⟩ := bits_join (group24 a b c)
  have hsplit : bits 8 a.toNat ++ (bits 8 b.toNat ++ (bits 8 c.toNat ++ rest.flatMap fun b => bits 8 b.toNat)) =
      bits 6 (group24 a b c >>> 18) ++ (bits 6 (group24 a b c >>> 12) ++ (bits 6 (group24 a b c >>> 6) ++
        (bits 6 (group24 a b c) ++ rest.flatMap fun b => bits 8 b.toNat))) := by
    rw [ha, hb, hc, c1, c2, c3, ← j1, ← j2]
    simp only [List.append_assoc]
  rw [chars, List.flatMap_cons, List.flatMap_cons, List.flatMap_cons, hsplit,
    BlockHash.blocks_append (by decide) (bits_length ..), BlockHash.blocks_append (by decide) (bits_length ..),
    BlockHash.blocks_append (by decide) (bits_length ..), BlockHash.blocks_append (by decide) (bits_length ..)]
  simp only [List.map_cons, sextet_bits, ← base64Char_eq]
  rfl

theorem chars_two (a b : UInt8) : chars [a, b] = [base64Char (group24 a b 0 >>> 18),
    base64Char (group24 a b 0 >>> 12), base64Char (group24 a b 0 >>> 6)] := by
  obtain ⟨ha, hb, -⟩ := group24_bits a b 0
  obtain ⟨c1, c2, -⟩ := bits_cut (group24 a b 0)
  obtain ⟨j1, -⟩ := bits_join (group24 a b 0)
  have hsplit : bits 8 a.toNat ++ (bits 8 b.toNat ++ []) =
      bits 6 (group24 a b 0 >>> 18) ++ (bits 6 (group24 a b 0 >>> 12) ++ bits 4 (group24 a b 0 >>> 8)) := by
    rw [ha, hb, c1, c2, ← j1]
    simp only [List.append_assoc, List.append_nil]
  have hz : (group24 a b 0 >>> 6) % 2 ^ (6 - 4) = 0 := by
    rw [jwt.group24_eq, Nat.shiftRight_eq_div_pow]
    simp
    omega
  have hlast := sextet_short (w := 4) (by decide) hz
  rw [← Nat.shiftRight_add] at hlast
  rw [chars, List.flatMap_cons, List.flatMap_cons, List.flatMap_nil, hsplit,
    BlockHash.blocks_append (by decide) (bits_length ..), BlockHash.blocks_append (by decide) (bits_length ..),
    BlockHash.blocks_short (by rw [bits_length]; decide) (by rw [bits_length]; decide)]
  simp only [List.map_cons, List.map_nil, sextet_bits, hlast, ← base64Char_eq]

theorem chars_one (a : UInt8) :
    chars [a] = [base64Char (group24 a 0 0 >>> 18), base64Char (group24 a 0 0 >>> 12)] := by
  obtain ⟨ha, -, -⟩ := group24_bits a 0 0
  obtain ⟨c1, -, -⟩ := bits_cut (group24 a 0 0)
  have hz : (group24 a 0 0 >>> 12) % 2 ^ (6 - 2) = 0 := by
    rw [jwt.group24_eq, Nat.shiftRight_eq_div_pow]
    simp
    omega
  have hlast := sextet_short (w := 2) (by decide) hz
  rw [← Nat.shiftRight_add] at hlast
  rw [chars, List.flatMap_cons, List.flatMap_nil, List.append_nil, ha, c1,
    BlockHash.blocks_append (by decide) (bits_length ..),
    BlockHash.blocks_short (by rw [bits_length]; decide) (by rw [bits_length]; decide)]
  simp only [List.map_cons, List.map_nil, sextet_bits, hlast, ← base64Char_eq]

theorem chars_eq : ∀ data : Bytes, chars data = jwt.encodeGroups data
  | a :: b :: c :: rest => by rw [chars_three, jwt.encodeGroups, chars_eq rest]
  | [a, b] => chars_two a b
  | [a] => chars_one a
  | [] => by
    rw [chars, List.flatMap_nil, BlockHash.blocks_nil]
    rfl

/-! ## The two encoders -/

/-- The padded text is the unpadded one with `=` up to whole quanta. -/
theorem base64Encode_groups : ∀ data : Bytes, wsCrypto.base64Encode data =
    jwt.encodeGroups data ++ List.replicate ((4 - (jwt.encodeGroups data).length % 4) % 4) 61
  | a :: b :: c :: rest => by
    rw [wsCrypto.base64Encode, base64Encode_groups rest, jwt.encodeGroups]
    simp only [List.length_cons, List.cons_append]
    rw [show ((jwt.encodeGroups rest).length + 1 + 1 + 1 + 1) % 4 = (jwt.encodeGroups rest).length % 4 by omega]
  | [_, _] => rfl
  | [_] => rfl
  | [] => rfl

theorem base64Encode_eq (data : Bytes) : wsCrypto.base64Encode data = encode data := by
  rw [base64Encode_groups, encode, chars_eq]

theorem base64Encode_length : ∀ data : Bytes, (wsCrypto.base64Encode data).length = 4 * ((data.length + 2) / 3)
  | a :: b :: c :: rest => by
    rw [wsCrypto.base64Encode]
    simp only [List.length_cons]
    rw [base64Encode_length rest]
    omega
  | [_, _] => by simp [wsCrypto.base64Encode]
  | [_] => by simp [wsCrypto.base64Encode]
  | [] => rfl

/-! ## The accept key -/

def guid : Bytes := bytes "258EAFA5-E914-47DA-95CA-C5AB0DC85B11"

/-- The accept key is the standards' own, of 28 characters for any key of the
client, and the message that SHA-1 reads has whole blocks. -/
theorem computeAcceptKey_conforms (clientKey : Bytes) :
    wsCrypto.computeAcceptKey clientKey = encode (Sha1.hash (clientKey ++ guid)) ∧
    (padMessage (clientKey ++ guid)).length % 64 = 0 ∧
    (wsCrypto.computeAcceptKey clientKey).length = 28 ∧ (wsCrypto.computeAcceptKey clientKey).getLast? = some 61 := by
  refine ⟨?_, padMessage_length _, ?_, ?_⟩
  · rw [wsCrypto.computeAcceptKey, base64Encode_eq, wsCrypto.sha1_eq]
    rfl
  · rw [wsCrypto.computeAcceptKey, base64Encode_length, wsCrypto.sha1_length]
  · rfl

/-! ## The decoder on both texts -/

set_option maxRecDepth 8192 in
theorem base64Char_plain : ∀ i : Fin 64, jwt.ofUrlChar (base64Char i.val) = base64Char i.val ∧
    (base64Char i.val).toNat < 128 := by
  decide

theorem plain {data : Bytes} {c : UInt8} (h : c ∈ jwt.encodeGroups data) :
    jwt.ofUrlChar c = c ∧ jwt.ofUrlChar (jwt.toUrlChar c) = c ∧ c.toNat < 128 ∧ c ≠ 61 := by
  obtain ⟨n, rfl⟩ := jwt.encodeGroups_chars data c h
  obtain ⟨hof, hlt⟩ := base64Char_plain ⟨n % 64, Nat.mod_lt _ (by decide)⟩
  rw [← jwt.base64Char_mod] at hof hlt
  exact ⟨hof, jwt.ofUrlChar_base64Char n, hlt, jwt.base64Char_ne_equals n⟩

theorem padEquals_eq : ∀ (fuel : Nat) (x : Bytes), (4 - x.length % 4) % 4 ≤ fuel →
    jwt.padEquals fuel x = x ++ List.replicate ((4 - x.length % 4) % 4) 61
  | 0, x, h => by rw [jwt.padEquals, Nat.le_zero.mp h, List.replicate_zero, List.append_nil]
  | fuel + 1, x, h => by
    have hlen : (x ++ [(61 : UInt8)]).length = x.length + 1 := List.length_append
    rw [jwt.padEquals]
    split
    · rename_i hx
      obtain ⟨k, hk⟩ : ∃ k, (4 - x.length % 4) % 4 = k + 1 := ⟨(4 - x.length % 4) % 4 - 1, by omega⟩
      have hnext : (4 - (x ++ [(61 : UInt8)]).length % 4) % 4 = k := by
        rw [hlen]
        omega
      rw [padEquals_eq fuel _ (by omega), hnext, hk, List.append_assoc, List.replicate_succ]
      rfl
    · rename_i hx
      rw [show (4 - x.length % 4) % 4 = 0 by omega, List.replicate_zero, List.append_nil]

/-- Both texts are the padded one when the decoder has restored its alphabet. -/
theorem restored (data : Bytes) :
    jwt.padEquals 3 ((jwt.base64UrlEncode data).map jwt.ofUrlChar) = wsCrypto.base64Encode data ∧
    jwt.padEquals 3 ((wsCrypto.base64Encode data).map jwt.ofUrlChar) = wsCrypto.base64Encode data := by
  have hurl : (jwt.base64UrlEncode data).map jwt.ofUrlChar = jwt.encodeGroups data := by
    rw [jwt.base64UrlEncode, List.map_map]
    exact (List.map_congr_left fun c hc => (plain hc).2.1).trans (List.map_id _)
  have hstd : (wsCrypto.base64Encode data).map jwt.ofUrlChar = wsCrypto.base64Encode data := by
    rw [base64Encode_groups, List.map_append, List.map_replicate]
    congr 1
    exact (List.map_congr_left fun c hc => (plain hc).1).trans (List.map_id _)
  have hlen : (wsCrypto.base64Encode data).length % 4 = 0 := by
    rw [base64Encode_length]
    exact Nat.mul_mod_right 4 _
  constructor
  · rw [hurl, padEquals_eq 3 _ (by omega), base64Encode_groups]
  · rw [hstd, jwt.padEquals, if_neg (not_not.mpr hlen)]

theorem unpadded (data : Bytes) : (wsCrypto.base64Encode data).filter (· ≠ 61) = jwt.encodeGroups data := by
  rw [base64Encode_groups, List.filter_append]
  have hall : (jwt.encodeGroups data).filter (· ≠ 61) = jwt.encodeGroups data := by
    apply List.filter_eq_self.mpr
    intro c hc
    exact decide_eq_true (plain hc).2.2.2
  rw [hall]
  simp

namespace jwt

/-- The text that the loop of the decoder reads. -/
def restoredText (input : Bytes) : Bytes := padEquals 3 (input.map ofUrlChar)

/-- The decoder reads `data` from a text: every table index is in the table and
every round has its four characters. -/
structure Reads (input data : Bytes) : Prop where
  value : base64UrlDecode input = data
  index_lt : ∀ c ∈ restoredText input, c.toNat < 128
  round_lt : ∀ i, i % 4 = 0 → i < (restoredText input).length → i + 3 < (restoredText input).length

theorem Reads.of_restored {input data : Bytes} (h : restoredText input = wsCrypto.base64Encode data) :
    Reads input data where
  value := by
    have hpad := (restored data).1
    have hd := base64UrlDecode_encode data
    rw [base64UrlDecode, hpad] at hd
    rw [base64UrlDecode, ← hd]
    exact congrArg decodeGroups h
  index_lt := by
    intro c hc
    rw [h, base64Encode_groups, List.mem_append] at hc
    rcases hc with hc | hc
    · exact (plain hc).2.2.1
    · rw [(List.mem_replicate.mp hc).2]
      decide
  round_lt := by
    intro i hi hlt
    rw [h, base64Encode_length] at *
    omega

end jwt

/-- The encoders agree, and the decoder reads either text. -/
theorem encoders_agree (data : Bytes) :
    jwt.base64UrlEncode data = ((wsCrypto.base64Encode data).filter (· ≠ 61)).map jwt.toUrlChar ∧
    jwt.Reads (jwt.base64UrlEncode data) data ∧ jwt.Reads (wsCrypto.base64Encode data) data := by
  obtain ⟨hurl, hstd⟩ := restored data
  refine ⟨?_, jwt.Reads.of_restored hurl, jwt.Reads.of_restored hstd⟩
  rw [unpadded, jwt.base64UrlEncode]

end Ryklys
