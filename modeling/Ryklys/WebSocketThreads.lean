import Ryklys.OutputSound

/-!
# Threads on one WebSocketConnection

The steps of `WebSocketConnection` between which other threads run. One thread
at a time holds `write_mu_`: a sender, `OnWritable`, or the reader while it
echoes a close. One thread at a time is the reader (`conn_mutex_`); its PONG
and its last look at the queue are not under `write_mu_`. The frames that
arrive, the results of `send` and what the callbacks do are the environment's.
-/

namespace Ryklys

open Runs

namespace WebSocketConnection

/-- The first half of `QueueFrame`. -/
def push (c : WebSocketConnection) (frame : WebSocketFrame) : WebSocketConnection :=
  { c with writeQueue := c.writeQueue ++ [frame.serialize], queued := c.queued ++ [frame] }

def armForWrite (c : WebSocketConnection) : WebSocketConnection := { c with interest := .epollout }

def armForRead (c : WebSocketConnection) : WebSocketConnection := { c with interest := .epollin }

theorem queueFrame_eq (c : WebSocketConnection) (frame : WebSocketFrame) :
    c.queueFrame frame = (c.push frame).armForWrite := rfl

end WebSocketConnection

/-- Where the holder of `write_mu_` is. -/
inductive HolderAt where
  | push (frame : WebSocketFrame)
  | arm
  | closeTest (code : UInt16) (reason : Bytes)
  | closeSet (code : UInt16) (reason : Bytes)
  | flush
  | armRead
  deriving DecidableEq, Repr

structure Holder where
  pc : HolderAt
  -- it is the reader's own call of `Close`
  byReader : Bool := false
  deriving DecidableEq, Repr

/-- Where `OnReadable` is. -/
inductive Reader where
  | idle
  | recv
  | loop
  | pushPong (payload : Bytes)
  | armPong
  | closeTest (code : UInt16) (reason : Bytes)
  | lockClose (code : UInt16) (reason : Bytes)
  | inClose (code : UInt16) (reason : Bytes)
  | setClosed (code : UInt16) (reason : Bytes)
  | notify (code : UInt16) (reason : Bytes)
  | callback
  | lastLook
  | lastArm
  deriving DecidableEq, Repr

structure Threads where
  conn : WebSocketConnection := {}
  holder : Option Holder := none
  reader : Reader := .idle
  -- messages of `Broadcast` calls that have seen the connection OPEN
  tested : List Bytes := []

inductive ThreadOp where
  -- a sender's call gets `write_mu_`
  | call (call : WsCall)
  -- `Broadcast` looks at the state, and later calls `SendText`
  | broadcastTest (message : Bytes)
  | broadcastSend (message : Bytes)
  | writable
  -- the next step of the holder of `write_mu_`; `OnWritable` may call `send` there
  | holder (result : SendResult)
  | readable
  | recvEnds (stop : RecvStop)
  | frame (frame : WebSocketFrame)
  | loopEnds
  -- `Parse` or a callback throws
  | throws
  | reader
  | setOnMessage
  | setOnClose

namespace Threads

variable (s : Threads)

def lock (pc : HolderAt) (byReader : Bool) : Threads := { s with holder := some { pc, byReader } }

/-- The holder lets go; the reader goes on behind its own call of `Close`. -/
def unlock (h : Holder) : Threads :=
  { s with
    holder := none
    reader := match h.byReader, s.reader with
      | true, .inClose code reason => .setClosed code reason
      | _, reader => reader }

def startOf : WsCall → HolderAt
  | .sendText message => .push { opcode := WsOpcode.TEXT, payload := message }
  | .sendBinary data => .push { opcode := WsOpcode.BINARY, payload := data }
  | .sendPing data => .push { opcode := WsOpcode.PING, payload := data }
  | .close code reason => .closeTest code reason

def closeFrame (code : UInt16) (reason : Bytes) : WebSocketFrame :=
  { opcode := WsOpcode.CLOSE, payload := WebSocketConnection.closePayload code reason }

def holderStep (h : Holder) (result : SendResult) : Threads :=
  match h.pc with
  | .push frame => { s with conn := s.conn.push frame, holder := some { h with pc := .arm } }
  | .arm => { s with conn := s.conn.armForWrite }.unlock h
  | .closeTest code reason =>
    if s.conn.state = .OPEN then { s with holder := some { h with pc := .closeSet code reason } } else s.unlock h
  | .closeSet code reason =>
    { s with
      conn := { s.conn with state := .CLOSING }
      holder := some { h with pc := .push (closeFrame code reason) } }
  | .flush =>
    match s.conn.writeQueue with
    | [] => { s with holder := some { h with pc := .armRead } }
    | data :: queue =>
      match result with
      | .accepted n => { s with conn := s.conn.accept data queue n }
      | .eagain => s.unlock h
      | .error => { s with conn := { s.conn with state := .CLOSED } }.unlock h
  | .armRead => { s with conn := s.conn.armForRead }.unlock h

/-- What the frame loop does with a frame before it touches anything shared. -/
def dispatch (frame : WebSocketFrame) : Reader :=
  if frame.opcode = WsOpcode.TEXT ∨ frame.opcode = WsOpcode.BINARY then
    if s.conn.onMessage then .callback else .loop
  else if frame.opcode = WsOpcode.PING then .pushPong frame.payload
  else if frame.opcode = WsOpcode.CLOSE then
    let (code, reason) := WebSocketConnection.closeReason frame.payload
    .closeTest code reason
  else .loop

def received (frame : WebSocketFrame) : WebSocketConnection :=
  { s.conn with
    dispatched := s.conn.dispatched ++ [frame]
    messageCalls :=
      if isMessage frame && s.conn.onMessage then s.conn.messageCalls ++ [(frame.payload, frame.opcode)]
      else s.conn.messageCalls }

def pongFrame (payload : Bytes) : WebSocketFrame := { opcode := WsOpcode.PONG, payload }

def readerStep : Threads :=
  match s.reader with
  | .pushPong payload => { s with conn := s.conn.push (pongFrame payload), reader := .armPong }
  | .armPong => { s with conn := s.conn.armForWrite, reader := .loop }
  | .closeTest code reason =>
    { s with reader := if s.conn.state = .OPEN then .lockClose code reason else .setClosed code reason }
  | .lockClose code reason =>
    if s.holder = none then { s.lock (.closeTest code reason) true with reader := .inClose code reason } else s
  | .setClosed code reason =>
    { s with conn := { s.conn with state := .CLOSED }, reader := .notify code reason }
  | .notify code reason =>
    if s.conn.onClose then
      { s with conn := { s.conn with closeCalls := s.conn.closeCalls ++ [(code, reason)] }, reader := .callback }
    else { s with reader := .loop }
  | .callback => { s with reader := .loop }
  | .lastLook => { s with reader := if s.conn.writeQueue = [] then .idle else .lastArm }
  | .lastArm => { s with conn := s.conn.armForWrite, reader := .idle }
  | _ => s

/-- One step of one thread; a thread that cannot take it stays where it is. -/
def step : ThreadOp → Threads
  | .call call => if s.holder = none then s.lock (startOf call) false else s
  | .broadcastTest message => if s.conn.state = .OPEN then { s with tested := s.tested ++ [message] } else s
  | .broadcastSend message =>
    if s.holder = none ∧ message ∈ s.tested then
      { s with tested := s.tested.erase message }.lock (startOf (.sendText message)) false
    else s
  | .writable => if s.holder = none then s.lock .flush false else s
  | .holder result =>
    match s.holder with
    | none => s
    | some h => s.holderStep h result
  | .readable => if s.reader = .idle then { s with reader := .recv } else s
  | .recvEnds stop =>
    if s.reader = .recv then
      match stop with
      | .eagain => { s with reader := .loop }
      | .error => { s with reader := .idle }
      | .eof => { s with conn := { s.conn with state := .CLOSED }, reader := .idle }
    else s
  | .frame frame =>
    if s.reader = .loop then { s with conn := s.received frame, reader := s.dispatch frame } else s
  | .loopEnds => if s.reader = .loop then { s with reader := .lastLook } else s
  | .throws => if s.reader = .loop ∨ s.reader = .callback then { s with reader := .idle } else s
  | .reader => s.readerStep
  | .setOnMessage => { s with conn := { s.conn with onMessage := true } }
  | .setOnClose => { s with conn := { s.conn with onClose := true } }

/-- No operation of the connection is in progress. -/
def Quiet : Prop := s.holder = none ∧ s.reader = .idle

/-! ## What a step pushes -/

def heldFrame : HolderAt → Option WebSocketFrame
  | .push frame => some frame
  | _ => none

def pong : Reader → Option WebSocketFrame
  | .pushPong payload => some (pongFrame payload)
  | _ => none

/-- The frame that the step pushes onto `write_queue_`. -/
def pushes (s : Threads) : ThreadOp → Option WebSocketFrame
  | .holder _ => s.holder.bind fun h => heldFrame h.pc
  | .reader => pong s.reader
  | _ => none

theorem holder_step {s : Threads} {h : Holder} (hs : s.holder = some h) (result : SendResult) :
    s.step (.holder result) = s.holderStep h result := by
  simp only [step, hs]

theorem accept_spec (c : WebSocketConnection) (data : Bytes) (queue : List Bytes) (n : Nat) :
    (c.accept data queue n).queued = c.queued ∧ (c.accept data queue n).state = c.state ∧
      (c.accept data queue n).interest = c.interest := by
  unfold WebSocketConnection.accept
  simp only
  split <;> exact ⟨rfl, rfl, rfl⟩

theorem queued_guard {p : Prop} [Decidable p] {s s' : Threads} (h : s'.conn.queued = s.conn.queued) :
    (if p then s' else s).conn.queued = s.conn.queued ++ [] := by
  rw [List.append_nil]
  split
  · exact h
  · rfl

theorem queued_holderStep {s : Threads} {h : Holder} (hh : s.holder = some h) (result : SendResult) :
    (s.holderStep h result).conn.queued = s.conn.queued ++ (s.pushes (.holder result)).toList := by
  unfold holderStep pushes
  rw [hh, Option.bind_some]
  cases hpc : h.pc with
  | push frame => rfl
  | flush =>
    refine Eq.trans ?_ (List.append_nil _).symm
    simp only
    split
    · rfl
    · rename_i data queue hq
      cases result with
      | accepted n => exact (accept_spec s.conn data queue n).1
      | eagain => rfl
      | error => rfl
  | closeTest code reason =>
    refine Eq.trans ?_ (List.append_nil _).symm
    simp only
    split <;> rfl
  | _ => exact (List.append_nil _).symm

theorem queued_readerStep (s : Threads) :
    s.readerStep.conn.queued = s.conn.queued ++ (s.pushes .reader).toList := by
  unfold readerStep pushes
  cases hr : s.reader with
  | pushPong payload => rfl
  | lockClose code reason =>
    refine Eq.trans ?_ (List.append_nil _).symm
    simp only
    split <;> rfl
  | notify code reason =>
    refine Eq.trans ?_ (List.append_nil _).symm
    simp only
    split <;> rfl
  | _ => exact (List.append_nil _).symm

theorem queued_step (s : Threads) (o : ThreadOp) :
    (s.step o).conn.queued = s.conn.queued ++ (s.pushes o).toList := by
  cases o with
  | holder result =>
    cases hh : s.holder with
    | none => simp [step, pushes, hh]
    | some h =>
      rw [holder_step hh]
      exact queued_holderStep hh result
  | reader => exact queued_readerStep s
  | recvEnds stop => exact queued_guard (by cases stop <;> rfl)
  | setOnMessage => exact (List.append_nil _).symm
  | setOnClose => exact (List.append_nil _).symm
  | _ => exact queued_guard rfl

/-! ## A thread that runs alone -/

variable {s}

theorem push_arm (frame : WebSocketFrame) (hs : s.holder = some { pc := .push frame }) (result : SendResult) :
    run step s [.holder result, .holder result] = { s with conn := s.conn.queueFrame frame, holder := none } := by
  rw [run_cons, holder_step hs, run_cons, run_nil]
  rfl

/-- A call that is not interrupted is the call of the sequential model. -/
theorem call_alone (hs : s.holder = none) (w : WsCall) :
    ∃ n, run step s (.call w :: List.replicate n (.holder .eagain)) = { s with conn := s.conn.call w } := by
  have hpush : ∀ frame, run step (s.lock (.push frame) false) [.holder .eagain, .holder .eagain] =
      { s with conn := s.conn.queueFrame frame } := by
    intro frame
    rw [push_arm frame rfl]
    simp only [lock, ← hs]
  have hlock : s.step (.call w) = s.lock (startOf w) false := by rw [step, if_pos hs]
  cases w with
  | sendText message =>
    refine ⟨2, ?_⟩
    rw [run_cons, hlock]
    exact hpush _
  | sendBinary data =>
    refine ⟨2, ?_⟩
    rw [run_cons, hlock]
    exact hpush _
  | sendPing data =>
    refine ⟨2, ?_⟩
    rw [run_cons, hlock]
    exact hpush _
  | close code reason =>
    by_cases ho : s.conn.state = .OPEN
    · refine ⟨4, ?_⟩
      rw [run_cons, hlock]
      simp [List.replicate, step, holderStep, startOf, lock, unlock, ho, WebSocketConnection.call,
        WebSocketConnection.close, WebSocketConnection.queueFrame, WebSocketConnection.push,
        WebSocketConnection.armForWrite, closeFrame, ← hs]
    · refine ⟨1, ?_⟩
      rw [run_cons, hlock]
      simp [List.replicate, step, holderStep, startOf, lock, unlock, ho, WebSocketConnection.call,
        WebSocketConnection.close, ← hs]

/-- So is a call of `OnWritable`. -/
theorem flush_alone (results : List SendResult) : ∀ {s : Threads}, s.holder = some { pc := .flush } →
    ∃ rs : List SendResult,
      run step s (rs.map .holder) = { s with conn := s.conn.onWritable results, holder := none } := by
  induction results with
  | nil =>
    intro s hs
    unfold WebSocketConnection.onWritable
    split
    · rename_i hq
      refine ⟨[.eagain, .eagain], ?_⟩
      simp [step, holderStep, hs, hq, unlock, WebSocketConnection.armForRead]
    · rename_i data queue hq
      refine ⟨[.eagain], ?_⟩
      simp [step, holderStep, hs, hq, unlock]
  | cons result results ih =>
    intro s hs
    unfold WebSocketConnection.onWritable
    split
    · rename_i hq
      refine ⟨[.eagain, .eagain], ?_⟩
      simp [step, holderStep, hs, hq, unlock, WebSocketConnection.armForRead]
    · rename_i data queue hq
      cases result with
      | accepted n =>
        have hstep : s.step (.holder (.accepted n)) = { s with conn := s.conn.accept data queue n } := by
          rw [holder_step hs]
          simp only [holderStep, hq]
        obtain ⟨rs, hrs⟩ := ih (s := { s with conn := s.conn.accept data queue n }) hs
        refine ⟨.accepted n :: rs, ?_⟩
        rw [List.map_cons, run_cons, hstep, hrs]
      | eagain =>
        refine ⟨[.eagain], ?_⟩
        simp [step, holderStep, hs, hq, unlock]
      | error =>
        refine ⟨[.error], ?_⟩
        simp [step, holderStep, hs, hq, unlock]

end Threads

end Ryklys
