import Ryklys.FrameSound

/-!
# What `Serialize` writes, `Parse` reads

The frames the server sends are unmasked and use the shortest length form.
`Parse` waits on every proper prefix of one and reads it back whatever follows
it (`serialize_round_trip`), so they are a codec of their own.
-/

namespace Ryklys

open SelfDelimiting

/-- A frame a vector can hold, with an opcode that fits its four bits. -/
structure Serializable (f : WebSocketFrame) : Prop where
  opcode_lt : f.opcode < 16
  unmasked : f.masked = false
  length_lt : f.payload.length < 2 ^ 63

namespace WebSocketFrame

variable (f : WebSocketFrame)

def form : LengthForm :=
  if f.payload.length ≤ 125 then .len7 else if f.payload.length ≤ 65535 then .len16 else .len64

def byte0 : UInt8 := (if f.fin then 0x80 else 0x00) ||| f.opcode

def byte1 : UInt8 := UInt8.ofNat (f.form.field f.payload.length)

def tail : Bytes := Numeral.toBytes f.form.width f.payload.length ++ f.payload

theorem serialize_eq : f.serialize = f.byte0 :: f.byte1 :: f.tail := by
  unfold serialize byte0 byte1 tail form
  by_cases h1 : f.payload.length ≤ 125
  · simp only [if_pos h1]
    rfl
  · by_cases h2 : f.payload.length ≤ 65535
    · simp only [if_neg h1, if_pos h2]
      rfl
    · simp only [if_neg h1, if_neg h2]
      rfl

theorem serialize_ne_nil : f.serialize ≠ [] := by
  rw [serialize_eq]
  exact List.cons_ne_nil _ _

theorem tail_length : f.tail.length = f.form.width + f.payload.length := by
  rw [tail, List.length_append, Numeral.toBytes_length]

theorem serialize_length : f.serialize.length = 2 + f.tail.length := by
  rw [serialize_eq, List.length_cons, List.length_cons, Nat.add_comm 2]

end WebSocketFrame

theorem form_holds {f : WebSocketFrame} (hf : Serializable f) : f.form.Holds f.payload.length := by
  have hl := hf.length_lt
  unfold WebSocketFrame.form
  by_cases h1 : f.payload.length ≤ 125
  · rw [if_pos h1]
    exact h1
  · rw [if_neg h1]
    by_cases h2 : f.payload.length ≤ 65535
    · rw [if_pos h2]
      exact Nat.lt_succ_of_le h2
    · rw [if_neg h2]
      exact hl

theorem serialize_bits {f : WebSocketFrame} (hf : Serializable f) :
    (f.byte0 &&& 0x80 != 0) = f.fin ∧ f.byte0 &&& 0x0F = f.opcode ∧ (f.byte1 &&& 0x80 != 0) = false ∧
      (f.byte1 &&& 0x7F).toNat = f.form.field f.payload.length := by
  have h0 := opcode_bits f.fin ⟨f.opcode.toNat, hf.opcode_lt⟩
  have h1 := flag_bits false ⟨f.form.field f.payload.length, LengthForm.field_lt (form_holds hf)⟩
  refine ⟨by simpa [WebSocketFrame.byte0] using h0.1, by simpa [WebSocketFrame.byte0] using h0.2, ?_, ?_⟩
  · simpa [WebSocketFrame.byte1] using h1.1
  · simpa [WebSocketFrame.byte1] using h1.2

def unmaskedFrame (f : WebSocketFrame) : WebSocketFrame :=
  { fin := f.fin, opcode := f.opcode, masked := false, maskKey := .zero, payload := f.payload }

theorem parse_serialize_cut {f : WebSocketFrame} (hf : Serializable f) {s t : Bytes} (hs : s <+: f.tail ++ t) :
    WebSocketFrame.parse (f.byte0 :: f.byte1 :: s) =
      .ok (if s.length < f.tail.length then none else some (unmaskedFrame f, f.serialize.length)) := by
  obtain ⟨hfin, hop, hmask, hfield⟩ := serialize_bits hf
  have htail := f.tail_length
  have hlen := hf.length_lt
  have hser := f.serialize_length
  have hwidth : f.form.width ≤ 8 := by cases f.form <;> decide
  have hext : s <+: Numeral.toBytes f.form.width f.payload.length ++ (f.payload ++ t) := by
    rwa [← List.append_assoc]
  unfold WebSocketFrame.parse
  simp only [hfin, hop, hmask, hfield, readLength_cut (form_holds hf) hext]
  by_cases hw : s.length < f.form.width
  · rw [if_pos hw, if_pos (by omega)]
  rw [if_neg hw]
  simp only [WebSocketFrame.readMaskKey, Bool.false_eq_true, if_false]
  have hcons : (f.byte0 :: f.byte1 :: s).length = s.length + 2 := rfl
  have hmod : (2 + f.form.width + f.payload.length) % sizeMod = 2 + f.tail.length := by
    rw [sizeMod, Nat.mod_eq_of_lt (by omega)]
    omega
  by_cases hp : s.length < f.tail.length
  · rw [if_pos hp, if_pos (by omega)]
  rw [if_neg hp, if_neg (by omega), if_neg (by rw [WebSocketFrame.maxPayload]; omega)]
  -- the payload is what is left of the tail behind the length field
  have hpay : ((f.byte0 :: f.byte1 :: s).drop (2 + f.form.width)).take f.payload.length = f.payload := by
    rw [Nat.add_comm, List.drop_succ_cons, List.drop_succ_cons, List.take_drop, List.prefix_iff_eq_take.mp hs,
      List.take_take, Nat.min_eq_left (by omega), ← htail, List.take_left, WebSocketFrame.tail,
      List.drop_left' (Numeral.toBytes_length _ _)]
  rw [hpay, show 2 + f.form.width + f.payload.length = f.serialize.length by omega]
  rfl

theorem parse_serialize {f : WebSocketFrame} (hf : Serializable f) (t : Bytes) :
    WebSocketFrame.parse (f.serialize ++ t) = .ok (some (unmaskedFrame f, f.serialize.length)) := by
  have h := parse_serialize_cut hf (s := f.tail ++ t) (List.prefix_refl _)
  rw [if_neg (by simp)] at h
  rwa [f.serialize_eq] at h ⊢

theorem parse_serialize_short {f : WebSocketFrame} (hf : Serializable f) {n : Nat} (hn : n < f.serialize.length) :
    WebSocketFrame.parse (f.serialize.take n) = .ok none := by
  rw [f.serialize_length] at hn
  rw [f.serialize_eq]
  match n with
  | 0 => rfl
  | 1 => rfl
  | n + 2 =>
    have h := parse_serialize_cut hf (s := f.tail.take n) (t := []) (by simpa using List.take_prefix n f.tail)
    rwa [if_pos (by rw [List.length_take]; omega)] at h

def serverCodec : Codec UInt8 WebSocketFrame { f : WebSocketFrame // Serializable f } where
  enc f := f.val.serialize
  out f := unmaskedFrame f.val
  dec := frameDec
  enc_ne_nil f := f.val.serialize_ne_nil
  dec_nil := frameDec_nil
  dec_enc f t := by rw [frameDec, parse_serialize f.property]
  dec_short f n hn := by rw [frameDec, parse_serialize_short f.property hn]

/-- **Round trip.** A serialised frame is read back as it was, whatever follows
it; of a part of it `Parse` waits for the rest; and no other frame starts with
the same bytes. -/
theorem serialize_round_trip {f : WebSocketFrame} (hf : Serializable f) :
    (∀ t, ∃ g, WebSocketFrame.parse (f.serialize ++ t) = .ok (some (g, f.serialize.length)) ∧
      g.fin = f.fin ∧ g.opcode = f.opcode ∧ g.payload = f.payload) ∧
    (∀ p, p <+: f.serialize → p ≠ f.serialize → WebSocketFrame.parse p = .ok none) ∧
    (∀ g, Serializable g → ∀ s t, f.serialize ++ s = g.serialize ++ t →
      f.fin = g.fin ∧ f.opcode = g.opcode ∧ f.payload = g.payload ∧ s = t) := by
  refine ⟨fun t => ⟨unmaskedFrame f, parse_serialize hf t, rfl, rfl, rfl⟩, ?_, ?_⟩
  · intro p hp hne
    have hlen : p.length < f.serialize.length :=
      Nat.lt_of_le_of_ne hp.length_le fun h => hne (hp.eq_of_length h)
    rw [List.prefix_iff_eq_take.mp hp]
    exact parse_serialize_short hf hlen
  · intro g hg s t h
    obtain ⟨hout, hst⟩ := serverCodec.enc_cancel (x := ⟨f, hf⟩) (y := ⟨g, hg⟩) h
    simp only [serverCodec, unmaskedFrame, WebSocketFrame.mk.injEq, true_and] at hout
    exact ⟨hout.1, hout.2.1, hout.2.2, hst⟩

theorem serialize_round_trip_pong :
    ∃ g, WebSocketFrame.parse
        (WebSocketFrame.serialize { opcode := WsOpcode.PONG, payload := [7, 8] } ++ [0x81]) =
        .ok (some (g, 4)) ∧ g.fin = true ∧ g.opcode = WsOpcode.PONG ∧ g.payload = [7, 8] :=
  (serialize_round_trip (f := { opcode := WsOpcode.PONG, payload := [7, 8] }) ⟨by decide, rfl, by decide⟩).1 [0x81]

end Ryklys
