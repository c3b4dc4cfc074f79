import Ryklys.SelfDelimiting
import Ryklys.WebSocketFrame

/-!
# Client frames are self-delimiting

The frames of RFC 6455 as a client may send them: any FIN bit and opcode,
masked or not, with the payload length in any of the three forms that can hold
it. `Parse` answers `none` on every proper prefix of an encoding and the frame
on every extension of it (`parse_cut`), whatever the form.
-/

namespace Ryklys

open SelfDelimiting

/-! ## Encoding -/

inductive LengthForm where
  | len7
  | len16
  | len64

namespace LengthForm

def width : LengthForm → Nat
  | len7 => 0
  | len16 => 2
  | len64 => 8

def field : LengthForm → Nat → Nat
  | len7, n => n
  | len16, _ => 126
  | len64, _ => 127

def Holds : LengthForm → Nat → Prop
  | len7, n => n ≤ 125
  | len16, n => n < 2 ^ 16
  | len64, n => n < 2 ^ 63

theorem field_lt {form : LengthForm} {n : Nat} (h : form.Holds n) : form.field n < 128 := by
  cases form with
  | len7 => simp only [Holds, field] at *; omega
  | len16 => simp [field]
  | len64 => simp [field]

end LengthForm

def maskWidth (mask : Option MaskKey) : Nat := if mask.isSome then 4 else 0

structure ClientFrame where
  fin : Bool
  opcode : WsOpcode
  mask : Option MaskKey
  form : LengthForm
  payload : Bytes
  opcode_lt : opcode < 16
  holds : form.Holds payload.length
  size_lt : 2 + form.width + maskWidth mask + payload.length < 2 ^ 63

namespace ClientFrame

variable (f : ClientFrame)

def byte0 : UInt8 := (if f.fin then 0x80 else 0) ||| f.opcode

def byte1 : UInt8 := (if f.mask.isSome then 0x80 else 0) ||| UInt8.ofNat (f.form.field f.payload.length)

def extendedLength : Bytes := Numeral.toBytes f.form.width f.payload.length

def maskBytes : Bytes := f.mask.elim [] MaskKey.toBytes

def wirePayload : Bytes := f.mask.elim f.payload (·.apply f.payload)

def tail : Bytes := f.extendedLength ++ f.maskBytes ++ f.wirePayload

def encode : Bytes := f.byte0 :: f.byte1 :: f.tail

/-- The frame as `Parse` gives it, with the payload unmasked. -/
def frame : WebSocketFrame where
  fin := f.fin
  opcode := f.opcode
  masked := f.mask.isSome
  maskKey := f.mask.getD .zero
  payload := f.payload

@[simp] theorem extendedLength_length : f.extendedLength.length = f.form.width := Numeral.toBytes_length _ _

@[simp] theorem maskBytes_length : f.maskBytes.length = maskWidth f.mask := by
  unfold maskBytes maskWidth
  cases f.mask <;> rfl

@[simp] theorem wirePayload_length : f.wirePayload.length = f.payload.length := by
  unfold wirePayload
  cases f.mask with
  | none => rfl
  | some key => exact key.apply_length f.payload

theorem tail_length : f.tail.length = f.form.width + maskWidth f.mask + f.payload.length := by
  simp [tail, Nat.add_assoc]

theorem encode_length : f.encode.length = 2 + f.tail.length := by
  simp only [encode, List.length_cons]
  omega

end ClientFrame

/-! ## The first two bytes -/

theorem flag_bits : ∀ (flag : Bool) (v : Fin 128),
    (((if flag then 0x80 else 0) ||| UInt8.ofNat v.val) &&& 0x80 != 0) = flag ∧
    (((if flag then 0x80 else 0) ||| UInt8.ofNat v.val) &&& 0x7F).toNat = v.val := by
  decide

theorem opcode_bits : ∀ (flag : Bool) (v : Fin 16),
    (((if flag then 0x80 else 0) ||| UInt8.ofNat v.val) &&& 0x80 != 0) = flag ∧
    ((if flag then 0x80 else 0) ||| UInt8.ofNat v.val) &&& 0x0F = UInt8.ofNat v.val := by
  decide

theorem byte0_bits (f : ClientFrame) : (f.byte0 &&& 0x80 != 0) = f.fin ∧ f.byte0 &&& 0x0F = f.opcode := by
  have h := opcode_bits f.fin ⟨f.opcode.toNat, f.opcode_lt⟩
  simpa [ClientFrame.byte0] using h

theorem byte1_bits (f : ClientFrame) :
    (f.byte1 &&& 0x80 != 0) = f.mask.isSome ∧ (f.byte1 &&& 0x7F).toNat = f.form.field f.payload.length :=
  flag_bits f.mask.isSome ⟨f.form.field f.payload.length, LengthForm.field_lt f.holds⟩

/-! ## The fields of a cut frame -/

theorem readLength_cut {form : LengthForm} {n : Nat} (hh : form.Holds n) {s t : Bytes}
    (hs : s <+: Numeral.toBytes form.width n ++ t) (b0 b1 : UInt8) :
    WebSocketFrame.readLength (form.field n) (b0 :: b1 :: s) =
      if s.length < form.width then none else some (n, 2 + form.width) := by
  have hext : form.width ≤ s.length → s.take form.width = Numeral.toBytes form.width n := by
    intro hk
    rw [List.prefix_iff_eq_take.mp hs, List.take_take, Nat.min_eq_left hk,
      List.take_left' (Numeral.toBytes_length _ _)]
  cases form with
  | len7 =>
    change n ≤ 125 at hh
    change WebSocketFrame.readLength n _ = if s.length < 0 then none else some (_, 2)
    rw [WebSocketFrame.readLength, if_neg (by omega), if_neg (by omega), if_neg (by omega)]
  | len16 =>
    change (if s.length + 2 < 4 then none else some (Numeral.ofBytes (s.take 2), 4)) =
      if s.length < 2 then none else some (n, 4)
    by_cases hl : s.length < 2
    · rw [if_pos hl, if_pos (by omega)]
    · rw [if_neg hl, if_neg (by omega), show s.take 2 = _ from hext (Nat.le_of_not_lt hl), Numeral.ofBytes_toBytes hh]
  | len64 =>
    change (if s.length + 2 < 10 then none else some (Numeral.ofBytes (s.take 8), 10)) =
      if s.length < 8 then none else some (n, 10)
    by_cases hl : s.length < 8
    · rw [if_pos hl, if_pos (by omega)]
    · rw [if_neg hl, if_neg (by omega), show s.take 8 = _ from hext (Nat.le_of_not_lt hl),
        Numeral.ofBytes_toBytes (Nat.lt_trans hh (by decide))]

theorem toBytes_inj {a b : MaskKey} : a.toBytes = b.toBytes ↔ a = b := by
  cases a
  cases b
  simp [MaskKey.toBytes]

theorem readMaskKey_short {data : Bytes} {pos : Nat} (h : data.length < pos + 4) :
    WebSocketFrame.readMaskKey true data pos = none := by
  rw [WebSocketFrame.readMaskKey, if_pos rfl]
  match hd : data.drop pos with
  | c0 :: c1 :: c2 :: c3 :: rest =>
    have hlen := congrArg List.length hd
    simp only [List.length_drop, List.length_cons] at hlen
    omega
  | [] | [_] | [_, _] | [_, _, _] => rfl

theorem readMaskKey_whole {data : Bytes} {pos : Nat} (h : pos + 4 ≤ data.length) :
    ∃ key, key.toBytes = (data.drop pos).take 4 ∧ WebSocketFrame.readMaskKey true data pos = some (key, pos + 4) := by
  rw [WebSocketFrame.readMaskKey, if_pos rfl]
  match hd : data.drop pos with
  | c0 :: c1 :: c2 :: c3 :: rest => exact ⟨⟨c0, c1, c2, c3⟩, rfl, rfl⟩
  | [] | [_] | [_, _] | [_, _, _] =>
    have hlen := congrArg List.length hd
    simp only [List.length_drop, List.length_cons, List.length_nil] at hlen
    omega

section
variable {f : ClientFrame} {s t : Bytes} (hs : s <+: f.tail ++ t)
include hs

theorem take_cut {k : Nat} (hk : k ≤ s.length) : s.take k = (f.tail ++ t).take k := by
  rw [List.prefix_iff_eq_take.mp hs, List.take_take, Nat.min_eq_left hk]

theorem slice_cut {i k : Nat} (hk : i + k ≤ s.length) : (s.drop i).take k = ((f.tail ++ t).drop i).take k := by
  rw [List.take_drop, List.take_drop, take_cut hs hk]

theorem readMaskKey_cut (b0 b1 : UInt8) :
    WebSocketFrame.readMaskKey f.mask.isSome (b0 :: b1 :: s) (2 + f.form.width) =
      if s.length < f.form.width + maskWidth f.mask ∧ f.mask.isSome then none
      else some (f.mask.getD .zero, 2 + f.form.width + maskWidth f.mask) := by
  cases hm : f.mask with
  | none => simp [maskWidth, WebSocketFrame.readMaskKey]
  | some key =>
    simp only [maskWidth, Option.isSome_some, if_true, and_true, Option.getD_some]
    by_cases hlt : s.length < f.form.width + 4
    · rw [if_pos hlt, readMaskKey_short (by simp only [List.length_cons]; omega)]
    rw [if_neg hlt]
    have hfour : 2 + f.form.width + 4 ≤ (b0 :: b1 :: s).length := by
      simp only [List.length_cons]
      omega
    obtain ⟨key', hkey, hread⟩ := readMaskKey_whole hfour
    have hdrop : (b0 :: b1 :: s).drop (2 + f.form.width) = s.drop f.form.width := by
      rw [Nat.add_comm, List.drop_succ_cons, List.drop_succ_cons]
    have hslice : (s.drop f.form.width).take 4 = key.toBytes := by
      rw [slice_cut hs (by omega), ClientFrame.tail, List.append_assoc, List.append_assoc,
        List.drop_left' f.extendedLength_length]
      simp [ClientFrame.maskBytes, hm, MaskKey.toBytes]
    rw [hdrop, hslice] at hkey
    rw [hread, toBytes_inj.mp hkey]

theorem payload_cut (hk : f.tail.length ≤ s.length) :
    (s.drop (f.form.width + maskWidth f.mask)).take f.payload.length = f.wirePayload := by
  rw [slice_cut hs (by rw [← f.tail_length]; exact hk), ClientFrame.tail, List.append_assoc _ _ t,
    List.drop_left' (by simp), List.take_left' f.wirePayload_length]

/-- **Prefix stability.** `Parse` waits on a cut frame and reads a whole one,
whatever follows it. -/
theorem parse_cut :
    WebSocketFrame.parse (f.byte0 :: f.byte1 :: s) =
      .ok (if s.length < f.tail.length then none else some (f.frame, f.encode.length)) := by
  obtain ⟨hfin, hop⟩ := byte0_bits f
  obtain ⟨hmask, hfield⟩ := byte1_bits f
  have htail := f.tail_length
  have hsize := f.size_lt
  have henc := f.encode_length
  have hext : s <+: Numeral.toBytes f.form.width f.payload.length ++ (f.maskBytes ++ f.wirePayload ++ t) := by
    rw [ClientFrame.tail, List.append_assoc, List.append_assoc] at hs
    rwa [List.append_assoc]
  unfold WebSocketFrame.parse
  simp only [hmask, hfield, readLength_cut f.holds hext, hfin, hop]
  by_cases hw : s.length < f.form.width
  · rw [if_pos hw, if_pos (by omega)]
  rw [if_neg hw]
  simp only [readMaskKey_cut hs]
  by_cases hm : s.length < f.form.width + maskWidth f.mask ∧ f.mask.isSome
  · rw [if_pos hm, if_pos (by omega)]
  rw [if_neg hm]
  simp only
  have hlen : (f.byte0 :: f.byte1 :: s).length = s.length + 2 := rfl
  have hmod : (2 + f.form.width + maskWidth f.mask + f.payload.length) % sizeMod = 2 + f.tail.length := by
    rw [sizeMod, Nat.mod_eq_of_lt (by omega)]
    omega
  by_cases hp : s.length < f.tail.length
  · rw [if_pos hp, if_pos (by omega)]
  rw [if_neg hp, if_neg (by omega), if_neg (by rw [WebSocketFrame.maxPayload]; omega)]
  have hdrop : (f.byte0 :: f.byte1 :: s).drop (2 + f.form.width + maskWidth f.mask) =
      s.drop (f.form.width + maskWidth f.mask) := by
    rw [Nat.add_assoc, Nat.add_comm, List.drop_succ_cons, List.drop_succ_cons]
  rw [hdrop, payload_cut hs (Nat.le_of_not_lt hp)]
  have hpay : (if f.mask.isSome then (f.mask.getD .zero).apply f.wirePayload else f.wirePayload) = f.payload := by
    unfold ClientFrame.wirePayload
    cases f.mask with
    | none => rfl
    | some key => exact key.apply_apply f.payload
  rw [hpay, show 2 + f.form.width + maskWidth f.mask + f.payload.length = f.encode.length by omega]
  rfl

end

/-! ## The codec -/

/-- `Parse` as a decoder; where it throws nothing is decoded. -/
def frameDec (data : Bytes) : Option (WebSocketFrame × Nat) :=
  match WebSocketFrame.parse data with
  | .ok r => r
  | .error _ => none

theorem parse_encode (f : ClientFrame) (t : Bytes) :
    WebSocketFrame.parse (f.encode ++ t) = .ok (some (f.frame, f.encode.length)) := by
  have h := parse_cut (f := f) (s := f.tail ++ t) (List.prefix_refl _)
  rwa [if_neg (by simp)] at h

theorem parse_short (f : ClientFrame) {n : Nat} (hn : n < f.encode.length) :
    WebSocketFrame.parse (f.encode.take n) = .ok none := by
  rw [f.encode_length] at hn
  match n with
  | 0 => rfl
  | 1 => rfl
  | n + 2 =>
    have h := parse_cut (f := f) (s := f.tail.take n) (t := []) (by simpa using List.take_prefix n f.tail)
    rwa [if_pos (by rw [List.length_take]; omega)] at h

theorem frameDec_nil : frameDec [] = none := rfl

def frameCodec : Codec UInt8 WebSocketFrame ClientFrame where
  enc := ClientFrame.encode
  out := ClientFrame.frame
  dec := frameDec
  enc_ne_nil f := by simp [ClientFrame.encode]
  dec_nil := frameDec_nil
  dec_enc f t := by rw [frameDec, parse_encode]
  dec_short f n hn := by rw [frameDec, parse_short f hn]

end Ryklys
