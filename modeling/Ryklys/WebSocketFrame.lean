import Ryklys.Strings

/-!
# WebSocketFrame

`WebSocketFrame::Parse` and `Serialize`. `Parse` reads a frame off the front of
a buffer; it answers `none` while the buffer holds no whole frame, and throws
when the payload it is about to copy is longer than a vector can be.
-/

namespace Ryklys

/-- `WsOpcode` is the low half of a byte, which need not be one of the named ones. -/
abbrev WsOpcode := UInt8

namespace WsOpcode

def CONTINUATION : WsOpcode := 0x0
def TEXT : WsOpcode := 0x1
def BINARY : WsOpcode := 0x2
def CLOSE : WsOpcode := 0x8
def PING : WsOpcode := 0x9
def PONG : WsOpcode := 0xA

end WsOpcode

structure MaskKey where
  b0 : UInt8
  b1 : UInt8
  b2 : UInt8
  b3 : UInt8
  deriving DecidableEq, Repr

namespace MaskKey

def zero : MaskKey := ⟨0, 0, 0, 0⟩

def get (key : MaskKey) (i : Nat) : UInt8 :=
  match i % 4 with
  | 0 => key.b0
  | 1 => key.b1
  | 2 => key.b2
  | _ => key.b3

def toBytes (key : MaskKey) : Bytes := [key.b0, key.b1, key.b2, key.b3]

def apply (key : MaskKey) (payload : Bytes) : Bytes := payload.mapIdx fun i b => b ^^^ key.get i

@[simp] theorem apply_length (key : MaskKey) (payload : Bytes) : (key.apply payload).length = payload.length := by
  simp [apply]

theorem apply_apply (key : MaskKey) (payload : Bytes) : key.apply (key.apply payload) = payload := by
  refine List.ext_getElem (by simp) fun i _ _ => ?_
  simp only [apply, List.getElem_mapIdx]
  rw [UInt8.xor_assoc, UInt8.xor_self, UInt8.xor_zero]

end MaskKey

structure WebSocketFrame where
  fin : Bool := true
  opcode : WsOpcode := WsOpcode.TEXT
  masked : Bool := false
  maskKey : MaskKey := .zero
  payload : Bytes := []
  deriving DecidableEq, Repr

namespace WebSocketFrame

/-- `payload.max_size()`. -/
def maxPayload : Nat := 2 ^ 63 - 1

/-- The payload length and the position behind it, from the length field's low
seven bits and the extended length they may announce. -/
def readLength (len7 : Nat) (data : Bytes) : Option (Nat × Nat) :=
  if len7 = 126 then
    if data.length < 2 + 2 then none else some (Numeral.ofBytes ((data.drop 2).take 2), 2 + 2)
  else if len7 = 127 then
    if data.length < 2 + 8 then none else some (Numeral.ofBytes ((data.drop 2).take 8), 2 + 8)
  else some (len7, 2)

def readMaskKey (masked : Bool) (data : Bytes) (pos : Nat) : Option (MaskKey × Nat) :=
  if masked then
    match data.drop pos with
    | b0 :: b1 :: b2 :: b3 :: _ => some (⟨b0, b1, b2, b3⟩, pos + 4)
    | _ => none
  else some (.zero, pos)

/-- The frame at the front of the buffer and how many bytes it takes. -/
def parse (data : Bytes) : Except Exn (Option (WebSocketFrame × Nat)) :=
  match data with
  | byte0 :: byte1 :: _ =>
    let masked := byte1 &&& 0x80 != 0
    match readLength (byte1 &&& 0x7F).toNat data with
    | none => .ok none
    | some (payloadLen, pos) =>
      match readMaskKey masked data pos with
      | none => .ok none
      | some (maskKey, pos) =>
        -- the sum of two 64-bit numbers
        if data.length < (pos + payloadLen) % sizeMod then .ok none
        else if maxPayload < payloadLen then .error .lengthError
        else
          let payload := (data.drop pos).take payloadLen
          .ok (some
            ({ fin := byte0 &&& 0x80 != 0
               opcode := byte0 &&& 0x0F
               masked
               maskKey
               payload := if masked then maskKey.apply payload else payload }, pos + payloadLen))
  | _ => .ok none

def serialize (frame : WebSocketFrame) : Bytes :=
  let size := frame.payload.length
  ((if frame.fin then 0x80 else 0x00) ||| frame.opcode) ::
    (if size ≤ 125 then [UInt8.ofNat size]
     else if size ≤ 65535 then 126 :: Numeral.toBytes 2 size
     else 127 :: Numeral.toBytes 8 size) ++ frame.payload

end WebSocketFrame

end Ryklys
