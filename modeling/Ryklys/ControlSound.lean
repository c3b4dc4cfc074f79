import Ryklys.WebSocketConnection

/-!
# Replies to control frames

The PONG and the CLOSE that the frame loop queues in reply, against the frame
they answer. A CLOSE is decoded into a code and a reason and encoded again, and
no payload is checked against the 125 bytes of a control frame
(`replies_iff`).
-/

namespace Ryklys

open WebSocketConnection (closePayload closeReason)

/-! ## Code and reason -/

theorem code_bytes (b0 b1 : UInt8) :
    (((b0.toUInt16 <<< 8) ||| b1.toUInt16) >>> 8).toUInt8 = b0 ∧
    ((b0.toUInt16 <<< 8) ||| b1.toUInt16).toUInt8 = b1 := by
  have h0 := b0.toNat_lt
  have h1 := b1.toNat_lt
  have hcode : ((b0.toUInt16 <<< 8) ||| b1.toUInt16).toNat = b0.toNat * 2 ^ 8 + b1.toNat := by
    rw [UInt16.toNat_or, UInt16.toNat_shiftLeft, UInt8.toNat_toUInt16, UInt8.toNat_toUInt16,
      show (8 : UInt16).toNat % 16 = 8 from rfl, Nat.mod_eq_of_lt (by rw [Nat.shiftLeft_eq]; omega),
      Numeral.shiftLeft_or h1]
  constructor
  · apply UInt8.toNat_inj.mp
    rw [UInt16.toNat_toUInt8, UInt16.toNat_shiftRight, hcode, show (8 : UInt16).toNat % 16 = 8 from rfl,
      Nat.shiftRight_eq_div_pow]
    omega
  · apply UInt8.toNat_inj.mp
    rw [UInt16.toNat_toUInt8, hcode]
    omega

theorem closePayload_closeReason {payload : Bytes} (h : 2 ≤ payload.length) :
    closePayload (closeReason payload).1 (closeReason payload).2 = payload := by
  match payload, h with
  | b0 :: b1 :: reason, _ =>
    obtain ⟨h0, h1⟩ := code_bytes b0 b1
    simp only [closeReason, closePayload, h0, h1]

theorem closePayload_short {payload : Bytes} (h : payload.length < 2) :
    closePayload (closeReason payload).1 (closeReason payload).2 = [0x03, 0xED] := by
  have hreserved : closePayload 1005 [] = [0x03, 0xED] := rfl
  match payload, h with
  | [], _ => exact hreserved
  | [_], _ => exact hreserved

/-! ## What is queued -/

structure Queues (c c' : WebSocketConnection) (frames : List WebSocketFrame) : Prop where
  queued : c'.queued = c.queued ++ frames
  writeQueue : c'.writeQueue = c.writeQueue ++ frames.map WebSocketFrame.serialize

namespace Queues

variable {c c' c'' : WebSocketConnection}

theorem refl (c : WebSocketConnection) : Queues c c [] := ⟨by simp, by simp⟩

theorem trans {a b : List WebSocketFrame} (h : Queues c c' a) (h' : Queues c' c'' b) : Queues c c'' (a ++ b) :=
  ⟨by rw [h'.queued, h.queued, List.append_assoc],
    by rw [h'.writeQueue, h.writeQueue, List.append_assoc, List.map_append]⟩

theorem queueFrame (c : WebSocketConnection) (frame : WebSocketFrame) : Queues c (c.queueFrame frame) [frame] :=
  ⟨rfl, rfl⟩

theorem close_open {c : WebSocketConnection} (h : c.state = .OPEN) (code : UInt16) (reason : Bytes) :
    Queues c (c.close code reason) [{ opcode := WsOpcode.CLOSE, payload := closePayload code reason }] := by
  rw [WebSocketConnection.close, if_neg (not_not.mpr h)]
  exact ⟨rfl, rfl⟩

theorem call (c : WebSocketConnection) (w : WsCall) : ∃ frames, Queues c (c.call w) frames := by
  cases w with
  | close code reason =>
    by_cases h : c.state = .OPEN
    · exact ⟨_, close_open h code reason⟩
    · refine ⟨[], ?_⟩
      rw [WebSocketConnection.call, WebSocketConnection.close, if_pos h]
      exact refl c
  | _ => exact ⟨_, queueFrame c _⟩

theorem calls (ws : List WsCall) : ∀ c : WebSocketConnection,
    ∃ frames, Queues c (ws.foldl WebSocketConnection.call c) frames := by
  induction ws with
  | nil => exact fun c => ⟨[], refl c⟩
  | cons w ws ih =>
    intro c
    obtain ⟨a, ha⟩ := call c w
    obtain ⟨b, hb⟩ := ih (c.call w)
    exact ⟨a ++ b, ha.trans hb⟩

theorem callback (c : WebSocketConnection) (reactions : List Reaction) :
    ∃ frames, Queues c (c.callback reactions).1 frames := by
  cases reactions with
  | nil => exact ⟨[], refl c⟩
  | cons reaction reactions => exact calls reaction.calls c

end Queues

/-! ## Replies -/

/-- The first frame queued answers with this opcode and the received payload, in
the size of a control frame. -/
def AnsweredBy (c c' : WebSocketConnection) (opcode : WsOpcode) (frame : WebSocketFrame) : Prop :=
  ∃ reply others, Queues c c' (reply :: others) ∧ reply.opcode = opcode ∧ reply.payload = frame.payload ∧
    reply.payload.length ≤ 125 ∧ (opcode = WsOpcode.CLOSE → reply.payload.take 2 ≠ [0x03, 0xED])

structure RepliesLegally (c c' : WebSocketConnection) (frame : WebSocketFrame) : Prop where
  ping : frame.opcode = WsOpcode.PING → AnsweredBy c c' WsOpcode.PONG frame
  close : frame.opcode = WsOpcode.CLOSE → AnsweredBy c c' WsOpcode.CLOSE frame

/-- The control frames whose echo is one: short enough, and a CLOSE with a code
that is not the reserved one. -/
def Echoable (frame : WebSocketFrame) : Prop :=
  (frame.opcode = WsOpcode.PING → frame.payload.length ≤ 125) ∧
  (frame.opcode = WsOpcode.CLOSE →
    2 ≤ frame.payload.length ∧ frame.payload.length ≤ 125 ∧ frame.payload.take 2 ≠ [0x03, 0xED])

instance (frame : WebSocketFrame) : Decidable (Echoable frame) := by unfold Echoable; infer_instance

section
variable {c : WebSocketConnection} (reactions : List Reaction) {frame : WebSocketFrame}

theorem dispatch_ping (h : frame.opcode = WsOpcode.PING) :
    Queues c (c.dispatch reactions frame).1 [{ opcode := WsOpcode.PONG, payload := frame.payload }] := by
  have hm : ¬ (frame.opcode = WsOpcode.TEXT ∨ frame.opcode = WsOpcode.BINARY) := by rw [h]; decide
  simp only [WebSocketConnection.dispatch, if_neg hm, if_pos h]
  exact ⟨rfl, rfl⟩

theorem dispatch_echo (hopen : c.state = .OPEN) (h : frame.opcode = WsOpcode.CLOSE) :
    ∃ others, Queues c (c.dispatch reactions frame).1
      ({ opcode := WsOpcode.CLOSE, payload := closePayload (closeReason frame.payload).1 (closeReason frame.payload).2 }
        :: others) := by
  rw [dispatch_close c reactions ((isClose_iff frame).mpr h)]
  obtain ⟨code, reason⟩ := closeReason frame.payload
  have hq := Queues.close_open (c := { c with dispatched := c.dispatched ++ [frame] }) hopen code reason
  simp only [WebSocketConnection.peerClose, if_pos hopen]
  generalize { c with dispatched := c.dispatched ++ [frame] }.close code reason = p at hq ⊢
  by_cases ho : p.onClose = true
  · rw [if_pos ho]
    obtain ⟨others, hb⟩ := Queues.callback
      { p with state := .CLOSED, closeCalls := p.closeCalls ++ [(code, reason)] } reactions
    have ht : Queues c { p with state := .CLOSED, closeCalls := p.closeCalls ++ [(code, reason)] } _ :=
      ⟨hq.queued, hq.writeQueue⟩
    exact ⟨others, ht.trans hb⟩
  · rw [if_neg ho]
    exact ⟨[], hq.queued, hq.writeQueue⟩

theorem queues_first {c' : WebSocketConnection} {a b : WebSocketFrame} {as bs : List WebSocketFrame}
    (ha : Queues c c' (a :: as)) (hb : Queues c c' (b :: bs)) : a = b := by
  have h := List.append_cancel_left (ha.queued.symm.trans hb.queued)
  exact (List.cons.inj h).1

/-- **Replies.** A dispatch on an open connection answers a control frame with
a legal and faithful one exactly when the frame can be echoed. -/
theorem replies_iff (c : WebSocketConnection) (hopen : c.state = .OPEN) (reactions : List Reaction)
    (frame : WebSocketFrame) : RepliesLegally c (c.dispatch reactions frame).1 frame ↔ Echoable frame := by
  constructor
  · intro h
    constructor
    · intro hop
      obtain ⟨reply, others, -, -, he, hlen, -⟩ := h.ping hop
      rwa [he] at hlen
    · intro hop
      obtain ⟨reply, others, hq, -, he, hlen, hcode⟩ := h.close hop
      obtain ⟨others', hq'⟩ := dispatch_echo reactions hopen hop
      have hreply := queues_first hq hq'
      rw [he] at hlen hcode
      refine ⟨?_, hlen, hcode rfl⟩
      -- a shorter payload is answered with the reserved code
      by_contra hshort
      have hpay : frame.payload = [0x03, 0xED] := by
        rw [← he, hreply]
        exact closePayload_short (Nat.lt_of_not_le hshort)
      rw [hpay] at hshort
      exact hshort (by decide)
  · intro h
    constructor
    · intro hop
      exact ⟨_, [], dispatch_ping reactions hop, rfl, rfl, h.1 hop, fun he => absurd he (by decide)⟩
    · intro hop
      obtain ⟨h2, h125, hcode⟩ := h.2 hop
      obtain ⟨others, hq⟩ := dispatch_echo reactions hopen hop
      rw [closePayload_closeReason h2] at hq
      exact ⟨_, others, hq, rfl, rfl, h125, fun _ => hcode⟩

end

theorem replies_normal_closure :
    RepliesLegally {} (WebSocketConnection.dispatch {} [] { opcode := WsOpcode.CLOSE, payload := [0x03, 0xE8] }).1
      { opcode := WsOpcode.CLOSE, payload := [0x03, 0xE8] } :=
  (replies_iff {} rfl [] _).mpr (by decide)

/-- An empty CLOSE is answered with the reserved code, and a long PING with a
PONG as long. -/
theorem not_replies :
    ¬ RepliesLegally {} (WebSocketConnection.dispatch {} [] { opcode := WsOpcode.CLOSE, masked := true }).1
      { opcode := WsOpcode.CLOSE, masked := true } ∧
    (WebSocketConnection.dispatch {} [] { opcode := WsOpcode.CLOSE, masked := true }).1.writeQueue =
      [[0x88, 0x02, 0x03, 0xED]] ∧
    ¬ RepliesLegally {} (WebSocketConnection.dispatch {} [] { opcode := WsOpcode.PING, payload := .replicate 126 0 }).1
      { opcode := WsOpcode.PING, payload := .replicate 126 0 } := by
  refine ⟨?_, rfl, ?_⟩
  · intro h
    obtain ⟨reply, others, hq, -, he, -⟩ := h.close rfl
    have hq' := hq.queued
    rw [show (WebSocketConnection.dispatch {} [] { opcode := WsOpcode.CLOSE, masked := true }).1.queued =
      [{ opcode := WsOpcode.CLOSE, payload := [0x03, 0xED] }] from rfl, List.nil_append, List.cons.injEq] at hq'
    rw [← hq'.1] at he
    cases he
  · intro h
    obtain ⟨reply, others, -, -, he, hlen, -⟩ := h.ping rfl
    rw [he, List.length_replicate] at hlen
    omega

end Ryklys
