import Ryklys.HttpConnection
import Ryklys.SelfDelimiting
import Ryklys.WebSocketFrame

/-!
# WebSocketConnection

The connection after an upgrade, as steps on its state. Each callback the frame
loop makes is answered by the environment with a `Reaction`: the calls the
callback makes on the connection, and whether it throws. The logs of what was
dispatched, notified and sent are what a run is judged by.
-/

namespace Ryklys

open SelfDelimiting

inductive WsState where
  | OPEN
  | CLOSING
  | CLOSED
  deriving DecidableEq, Repr

inductive WsCall where
  | sendText (message : Bytes)
  | sendBinary (data : Bytes)
  | sendPing (data : Bytes)
  | close (code : UInt16) (reason : Bytes)

structure Reaction where
  calls : List WsCall := []
  throws : Bool := false

/-- `on_message_` and `on_close_` are installed or empty. -/
structure WebSocketConnection where
  state : WsState := .OPEN
  readBuffer : Bytes := []
  writeQueue : List Bytes := []
  writeOffset : Nat := 0
  interest : EpollInterest := .epollin
  onMessage : Bool := false
  onClose : Bool := false
  -- frames the loop has started to dispatch
  dispatched : List WebSocketFrame := []
  -- invocations of `on_message_`
  messageCalls : List (Bytes × WsOpcode) := []
  -- invocations of `on_close_`
  closeCalls : List (UInt16 × Bytes) := []
  -- frames ever queued
  queued : List WebSocketFrame := []
  -- bytes the socket accepted so far
  wire : Bytes := []

namespace WebSocketConnection

/-! ## Sending -/

def queueFrame (c : WebSocketConnection) (frame : WebSocketFrame) : WebSocketConnection :=
  { c with writeQueue := c.writeQueue ++ [frame.serialize], queued := c.queued ++ [frame], interest := .epollout }

def closePayload (code : UInt16) (reason : Bytes) : Bytes := (code >>> 8).toUInt8 :: code.toUInt8 :: reason

def close (c : WebSocketConnection) (code : UInt16) (reason : Bytes) : WebSocketConnection :=
  if c.state ≠ .OPEN then c
  else { c with state := .CLOSING }.queueFrame { opcode := WsOpcode.CLOSE, payload := closePayload code reason }

def call (c : WebSocketConnection) : WsCall → WebSocketConnection
  | .sendText message => c.queueFrame { opcode := WsOpcode.TEXT, payload := message }
  | .sendBinary data => c.queueFrame { opcode := WsOpcode.BINARY, payload := data }
  | .sendPing data => c.queueFrame { opcode := WsOpcode.PING, payload := data }
  | .close code reason => c.close code reason

def callback (c : WebSocketConnection) : List Reaction → WebSocketConnection × List Reaction × Bool
  | [] => (c, [], false)
  | reaction :: reactions => (reaction.calls.foldl call c, reactions, reaction.throws)

/-! ## Reading -/

def closeReason : Bytes → UInt16 × Bytes
  | b0 :: b1 :: reason => ((b0.toUInt16 <<< 8) ||| b1.toUInt16, reason)
  | _ => (1005, [])

/-- A CLOSE frame is echoed on an open connection, and closes any. -/
def peerClose (c : WebSocketConnection) (code : UInt16) (reason : Bytes) : WebSocketConnection :=
  { (if c.state = .OPEN then c.close code reason else c) with state := .CLOSED }

def dispatch (c : WebSocketConnection) (reactions : List Reaction) (frame : WebSocketFrame) :
    WebSocketConnection × List Reaction × Bool :=
  let c := { c with dispatched := c.dispatched ++ [frame] }
  if frame.opcode = WsOpcode.TEXT ∨ frame.opcode = WsOpcode.BINARY then
    if c.onMessage then
      { c with messageCalls := c.messageCalls ++ [(frame.payload, frame.opcode)] }.callback reactions
    else (c, reactions, false)
  else if frame.opcode = WsOpcode.PING then
    (c.queueFrame { opcode := WsOpcode.PONG, payload := frame.payload }, reactions, false)
  else if frame.opcode = WsOpcode.CLOSE then
    let (code, reason) := closeReason frame.payload
    let c := c.peerClose code reason
    if c.onClose then { c with closeCalls := c.closeCalls ++ [(code, reason)] }.callback reactions
    else (c, reactions, false)
  else (c, reactions, false)

def armIfQueued (c : WebSocketConnection) : WebSocketConnection :=
  if c.writeQueue = [] then c else { c with interest := .epollout }

/-- The frame loop; a frame's bytes go once its callback has returned. -/
def frameLoop : Nat → WebSocketConnection → List Reaction → WebSocketConnection × Option Exn
  | 0, c, _ => (c.armIfQueued, none)
  | fuel + 1, c, reactions =>
    if c.readBuffer = [] then (c.armIfQueued, none)
    else
      match WebSocketFrame.parse c.readBuffer with
      | .error e => (c, some e)
      | .ok none => (c.armIfQueued, none)
      | .ok (some (frame, consumed)) =>
        let r := c.dispatch reactions frame
        if r.2.2 then (r.1, some .other)
        else frameLoop fuel { r.1 with readBuffer := r.1.readBuffer.drop consumed } r.2.1

def onReadable (c : WebSocketConnection) (d : Drain) (reactions : List Reaction) : WebSocketConnection × Option Exn :=
  let c := { c with readBuffer := drain c.readBuffer d.chunks }
  match d.stop with
  | .eof => ({ c with state := .CLOSED }, none)
  | .error => (c, none)
  | .eagain => frameLoop c.readBuffer.length c reactions

/-! ## Writing -/

/-- A `send` of the rest of the front frame took some of it; a frame that is all
sent is popped. -/
def accept (c : WebSocketConnection) (data : Bytes) (queue : List Bytes) (n : Nat) : WebSocketConnection :=
  let offered := data.drop c.writeOffset
  let sent := acceptCount n offered.length
  let c := { c with wire := c.wire ++ offered.take sent, writeOffset := c.writeOffset + sent }
  if data.length ≤ c.writeOffset then { c with writeQueue := queue, writeOffset := 0 } else c

/-- One call, given the results of its `send` calls; past the listed ones
`send` fails with EAGAIN. -/
def onWritable (c : WebSocketConnection) : List SendResult → WebSocketConnection
  | [] =>
    match c.writeQueue with
    | [] => { c with interest := .epollin }
    | _ :: _ => c
  | result :: results =>
    match c.writeQueue with
    | [] => { c with interest := .epollin }
    | data :: queue =>
      match result with
      | .accepted n => onWritable (c.accept data queue n) results
      | .eagain => c
      | .error => { c with state := .CLOSED }

end WebSocketConnection

inductive WsOp where
  | readable (d : Drain) (reactions : List Reaction)
  | writable (results : List SendResult)
  | call (call : WsCall)

def WebSocketConnection.step (c : WebSocketConnection) : WsOp → WebSocketConnection
  | .readable d reactions => (c.onReadable d reactions).1
  | .writable results => c.onWritable results
  | .call call => c.call call

/-! ## What sending leaves alone -/

/-- The second connection is the first after some frames were queued, and
perhaps a close was started. -/
structure SendsOnly (c c' : WebSocketConnection) : Prop where
  readBuffer : c'.readBuffer = c.readBuffer
  dispatched : c'.dispatched = c.dispatched
  closeCalls : c'.closeCalls = c.closeCalls
  onMessage : c'.onMessage = c.onMessage
  onClose : c'.onClose = c.onClose
  closed : c'.state = .CLOSED ↔ c.state = .CLOSED

namespace SendsOnly

variable {c c' c'' : WebSocketConnection}

theorem refl (c : WebSocketConnection) : SendsOnly c c := ⟨rfl, rfl, rfl, rfl, rfl, Iff.rfl⟩

theorem trans (h : SendsOnly c c') (h' : SendsOnly c' c'') : SendsOnly c c'' :=
  ⟨h'.1.trans h.1, h'.2.trans h.2, h'.3.trans h.3, h'.4.trans h.4, h'.5.trans h.5, h'.6.trans h.6⟩

theorem queueFrame (c : WebSocketConnection) (frame : WebSocketFrame) : SendsOnly c (c.queueFrame frame) :=
  ⟨rfl, rfl, rfl, rfl, rfl, Iff.rfl⟩

theorem close (c : WebSocketConnection) (code : UInt16) (reason : Bytes) : SendsOnly c (c.close code reason) := by
  unfold WebSocketConnection.close
  split
  · exact refl c
  · rename_i h
    refine ⟨rfl, rfl, rfl, rfl, rfl, ?_⟩
    simp [WebSocketConnection.queueFrame, Decidable.not_not.mp h]

theorem call (c : WebSocketConnection) (w : WsCall) : SendsOnly c (c.call w) := by
  cases w with
  | close code reason => exact close c code reason
  | _ => exact queueFrame c _

theorem calls : ∀ (ws : List WsCall) (c : WebSocketConnection), SendsOnly c (ws.foldl WebSocketConnection.call c)
  | [], c => refl c
  | w :: ws, c => (call c w).trans (calls ws (c.call w))

theorem callback (c : WebSocketConnection) (reactions : List Reaction) : SendsOnly c (c.callback reactions).1 := by
  cases reactions with
  | nil => exact refl c
  | cons reaction reactions => exact calls reaction.calls c

theorem accept (c : WebSocketConnection) (data : Bytes) (queue : List Bytes) (n : Nat) :
    SendsOnly c (c.accept data queue n) := by
  unfold WebSocketConnection.accept
  simp only
  split <;> exact ⟨rfl, rfl, rfl, rfl, rfl, Iff.rfl⟩

end SendsOnly

/-- With this queue and offset, a `send` of the call fails for good. -/
def failsAt : List Bytes → Nat → List SendResult → Bool
  | data :: queue, offset, .accepted n :: results =>
    let sent := acceptCount n (data.length - offset)
    if data.length ≤ offset + sent then failsAt queue 0 results else failsAt (data :: queue) (offset + sent) results
  | _ :: _, _, .error :: _ => true
  | _, _, _ => false

/-- `OnWritable` only sends, but for the state a failing `send` sets. -/
theorem onWritable_spec (results : List SendResult) : ∀ c : WebSocketConnection, ∃ p, SendsOnly c p ∧
    c.onWritable results = if failsAt c.writeQueue c.writeOffset results then { p with state := .CLOSED } else p := by
  induction results with
  | nil =>
    intro c
    unfold WebSocketConnection.onWritable
    cases hq : c.writeQueue with
    | nil => exact ⟨{ c with interest := .epollin }, ⟨rfl, rfl, rfl, rfl, rfl, Iff.rfl⟩, by simp [failsAt, hq]⟩
    | cons data queue => exact ⟨c, .refl c, by simp [failsAt]⟩
  | cons result results ih =>
    intro c
    unfold WebSocketConnection.onWritable
    cases hq : c.writeQueue with
    | nil => exact ⟨{ c with interest := .epollin }, ⟨rfl, rfl, rfl, rfl, rfl, Iff.rfl⟩, by simp [failsAt, hq]⟩
    | cons data queue =>
      cases result with
      | eagain => exact ⟨c, .refl c, by simp [failsAt]⟩
      | error => exact ⟨c, .refl c, by simp [failsAt, hq]⟩
      | accepted n =>
        obtain ⟨p, hp, he⟩ := ih (c.accept data queue n)
        refine ⟨p, (SendsOnly.accept c data queue n).trans hp, he.trans ?_⟩
        rw [failsAt, WebSocketConnection.accept]
        simp only [List.length_drop]
        by_cases hl : data.length ≤ c.writeOffset + acceptCount n (data.length - c.writeOffset)
        · rw [if_pos hl, if_pos hl]
        · rw [if_neg hl, if_neg hl, hq]

/-! ## What one dispatch does -/

def isMessage (frame : WebSocketFrame) : Bool := frame.opcode == WsOpcode.TEXT || frame.opcode == WsOpcode.BINARY

def isClose (frame : WebSocketFrame) : Bool := frame.opcode == WsOpcode.CLOSE

def callsBack (onMessage onClose : Bool) (frame : WebSocketFrame) : Bool :=
  (isMessage frame && onMessage) || (isClose frame && onClose)

def reacts (onMessage onClose : Bool) (reactions : List Reaction) (frame : WebSocketFrame) : List Reaction × Bool :=
  if callsBack onMessage onClose frame then (reactions.tail, reactions.head?.any Reaction.throws)
  else (reactions, false)

/-- One frame dispatched: logged, and notified if it is a CLOSE. -/
structure Dispatches (c c' : WebSocketConnection) (frame : WebSocketFrame) : Prop where
  readBuffer : c'.readBuffer = c.readBuffer
  dispatched : c'.dispatched = c.dispatched ++ [frame]
  closeCalls : c'.closeCalls.length = c.closeCalls.length + if isClose frame && c.onClose then 1 else 0
  onMessage : c'.onMessage = c.onMessage
  onClose : c'.onClose = c.onClose
  closed : c'.state = .CLOSED ↔ c.state = .CLOSED ∨ isClose frame = true

theorem opcode_cases (frame : WebSocketFrame) :
    (isMessage frame = true ∧ isClose frame = false) ∨ (isMessage frame = false ∧ isClose frame = true) ∨
      (isMessage frame = false ∧ isClose frame = false) := by
  unfold isMessage isClose
  by_cases h : frame.opcode = WsOpcode.CLOSE
  · rw [h]; decide
  · rw [beq_false_of_ne h]
    cases (frame.opcode == WsOpcode.TEXT || frame.opcode == WsOpcode.BINARY) <;> simp

theorem isMessage_iff (frame : WebSocketFrame) :
    isMessage frame = true ↔ frame.opcode = WsOpcode.TEXT ∨ frame.opcode = WsOpcode.BINARY := by
  simp [isMessage]

theorem isClose_iff (frame : WebSocketFrame) : isClose frame = true ↔ frame.opcode = WsOpcode.CLOSE := by
  simp [isClose]

theorem callback_snd (c : WebSocketConnection) (reactions : List Reaction) :
    (c.callback reactions).2 = (reactions.tail, reactions.head?.any Reaction.throws) := by
  cases reactions <;> rfl

section
variable (c : WebSocketConnection) (reactions : List Reaction) {frame : WebSocketFrame}

theorem dispatch_message (h : isMessage frame = true) :
    c.dispatch reactions frame =
      if c.onMessage then
        { c with
          dispatched := c.dispatched ++ [frame]
          messageCalls := c.messageCalls ++ [(frame.payload, frame.opcode)] }.callback reactions
      else ({ c with dispatched := c.dispatched ++ [frame] }, reactions, false) := by
  rw [WebSocketConnection.dispatch, if_pos ((isMessage_iff frame).mp h)]

theorem dispatch_close (h : isClose frame = true) :
    c.dispatch reactions frame =
      let (code, reason) := WebSocketConnection.closeReason frame.payload
      let c := { c with dispatched := c.dispatched ++ [frame] }.peerClose code reason
      if c.onClose then { c with closeCalls := c.closeCalls ++ [(code, reason)] }.callback reactions
      else (c, reactions, false) := by
  rw [isClose_iff] at h
  have hm : ¬ (frame.opcode = WsOpcode.TEXT ∨ frame.opcode = WsOpcode.BINARY) := by rw [h]; decide
  have hp : ¬ frame.opcode = WsOpcode.PING := by rw [h]; decide
  simp only [WebSocketConnection.dispatch, if_neg hm, if_neg hp, if_pos h]

theorem dispatch_other (hm : isMessage frame = false) (h : isClose frame = false) :
    SendsOnly { c with dispatched := c.dispatched ++ [frame] } (c.dispatch reactions frame).1 ∧
      (c.dispatch reactions frame).2 = (reactions, false) := by
  rw [← Bool.not_eq_true, isMessage_iff] at hm
  rw [← Bool.not_eq_true, isClose_iff] at h
  simp only [WebSocketConnection.dispatch, if_neg hm, if_neg h]
  split
  · exact ⟨.queueFrame _ _, rfl⟩
  · exact ⟨.refl _, rfl⟩

theorem peerClose_spec (c : WebSocketConnection) (code : UInt16) (reason : Bytes) :
    (c.peerClose code reason).readBuffer = c.readBuffer ∧ (c.peerClose code reason).dispatched = c.dispatched ∧
    (c.peerClose code reason).closeCalls = c.closeCalls ∧ (c.peerClose code reason).onMessage = c.onMessage ∧
    (c.peerClose code reason).onClose = c.onClose ∧ (c.peerClose code reason).state = .CLOSED := by
  have h := SendsOnly.close c code reason
  unfold WebSocketConnection.peerClose
  split
  · exact ⟨h.readBuffer, h.dispatched, h.closeCalls, h.onMessage, h.onClose, rfl⟩
  · exact ⟨rfl, rfl, rfl, rfl, rfl, rfl⟩

/-- **One dispatch.** It logs the frame, notifies a CLOSE and closes on it. -/
theorem dispatch_spec (frame : WebSocketFrame) : Dispatches c (c.dispatch reactions frame).1 frame := by
  rcases opcode_cases frame with ⟨hm, hc⟩ | ⟨hm, hc⟩ | ⟨hm, hc⟩
  · rw [dispatch_message c reactions hm]
    split
    · have h := SendsOnly.callback { c with
          dispatched := c.dispatched ++ [frame]
          messageCalls := c.messageCalls ++ [(frame.payload, frame.opcode)] } reactions
      exact ⟨h.readBuffer, h.dispatched, by rw [h.closeCalls, hc]; rfl, h.onMessage, h.onClose,
        by rw [h.closed, hc]; simp⟩
    · exact ⟨rfl, rfl, by rw [hc]; rfl, rfl, rfl, by rw [hc]; simp⟩
  · rw [dispatch_close c reactions hc]
    obtain ⟨code, reason⟩ := WebSocketConnection.closeReason frame.payload
    obtain ⟨h1, h2, h3, h4, h5, h6⟩ := peerClose_spec { c with dispatched := c.dispatched ++ [frame] } code reason
    simp only
    generalize { c with dispatched := c.dispatched ++ [frame] }.peerClose code reason = p at *
    simp only at h1 h2 h3 h4 h5
    by_cases ho : p.onClose = true
    · have h := SendsOnly.callback { p with closeCalls := p.closeCalls ++ [(code, reason)] } reactions
      rw [if_pos ho]
      refine ⟨h.readBuffer.trans h1, h.dispatched.trans h2, ?_, h.onMessage.trans h4, h.onClose.trans h5, ?_⟩
      · rw [h.closeCalls, hc, ← h5, ho, List.length_append, h3]
        rfl
      · rw [h.closed]
        simp [h6, hc]
    · rw [if_neg ho]
      rw [Bool.not_eq_true] at ho
      exact ⟨h1, h2, by rw [h3, hc, ← h5, ho]; rfl, h4, h5, by simp [h6, hc]⟩
  · obtain ⟨h, -⟩ := dispatch_other c reactions hm hc
    exact ⟨h.readBuffer, h.dispatched, by rw [h.closeCalls, hc]; rfl, h.onMessage, h.onClose,
      by rw [h.closed, hc]; simp⟩

theorem dispatch_reacts : (c.dispatch reactions frame).2 = reacts c.onMessage c.onClose reactions frame := by
  unfold reacts callsBack
  rcases opcode_cases frame with ⟨hm, hc⟩ | ⟨hm, hc⟩ | ⟨hm, hc⟩
  · rw [dispatch_message c reactions hm, hm, hc]
    cases ho : c.onMessage with
    | true => simpa using callback_snd _ reactions
    | false => simp
  · rw [dispatch_close c reactions hc, hm, hc]
    obtain ⟨code, reason⟩ := WebSocketConnection.closeReason frame.payload
    obtain ⟨-, -, -, -, h5, -⟩ := peerClose_spec { c with dispatched := c.dispatched ++ [frame] } code reason
    simp only [h5]
    cases ho : c.onClose with
    | true => simpa using callback_snd _ reactions
    | false => simp
  · rw [(dispatch_other c reactions hm hc).2, hm, hc]
    rfl

end

end Ryklys
