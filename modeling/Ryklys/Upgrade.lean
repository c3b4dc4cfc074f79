import Ryklys.FrameSound
import Ryklys.WebSocketThreads

/-!
# UpgradeToWebSocket

The worker that sent the 101 publishes the connection, arms EPOLLIN for it and
then runs the setup of the route, which installs the callbacks. Meanwhile the
client sends its frames, the threads of the connection run, and a worker that
still has an event of the old HttpConnection reads from the same socket.
-/

namespace Ryklys

open Runs

/-- Where the worker that runs `UpgradeToWebSocket` is. Without a route, or
without authorization, it calls `Close` where the setup would run. -/
inductive UpgradeAt where
  | handshakeSent
  | published
  | armed
  | messageSet
  | closeSet
  deriving DecidableEq, Repr

def UpgradeAt.isArmed : UpgradeAt → Bool
  | .handshakeSent => false
  | .published => false
  | _ => true

structure Upgrade where
  pc : UpgradeAt := .handshakeSent
  threads : Threads := {}
  -- how many bytes of its frames the client has sent
  sent : Nat := 0
  -- the bytes sent that nobody has received
  socket : Bytes := []
  -- epoll reports EPOLLIN of the WebSocketConnection, and no worker has begun with it
  event : Bool := false
  -- how many bytes the frame takes that is being dispatched
  consumed : Nat := 0

inductive UpgradeOp where
  -- the client sends its next `n` bytes
  | send (n : Nat)
  -- `recv` of the old HttpConnection gets `n` bytes
  | httpRecv (n : Nat)
  | upgrade
  | readable
  -- `recv` of the WebSocketConnection gets `n` bytes
  | recv (n : Nat)
  | recvEnds (stop : RecvStop)
  -- the frame loop parses a frame and starts to dispatch it
  | frame
  | loopEnds
  | throws
  | reader
  | writer (op : ThreadOp)
  -- epoll drops an event that nobody asks for any more
  | dropEvent

def ThreadOp.isWriter : ThreadOp → Bool
  | .call _ => true
  | .broadcastTest _ => true
  | .broadcastSend _ => true
  | .writable => true
  | .holder _ => true
  | _ => false

/-- The step is the `ArmForRead` of `OnWritable`. -/
def Threads.armsRead (s : Threads) : ThreadOp → Bool
  | .holder _ => s.holder.any fun h => h.pc == .armRead
  | _ => false

namespace Upgrade

variable (s : Upgrade)

def readBuffer : Bytes := s.threads.conn.readBuffer

def messageCalls : List (Bytes × WsOpcode) := s.threads.conn.messageCalls

def setBuffer (buf : Bytes) : Upgrade :=
  { s with threads := { s.threads with conn := { s.threads.conn with readBuffer := buf } } }

/-- Once a frame is dispatched its bytes go from the front of the buffer. -/
def settle : Upgrade := if s.threads.reader = .loop then s.setBuffer (s.readBuffer.drop s.consumed) else s

def upgradeStep : Upgrade :=
  match s.pc with
  | .handshakeSent => { s with pc := .published }
  | .published =>
    { s with
      pc := .armed
      threads := { s.threads with conn := s.threads.conn.armForRead }
      event := s.event || !s.socket.isEmpty }
  | .armed => { s with pc := .messageSet, threads := s.threads.step .setOnMessage }
  | .messageSet => { s with pc := .closeSet, threads := s.threads.step .setOnClose }
  | .closeSet => s

/-- Bytes of the client arrive; an armed connection is reported. -/
def arrive (sentNow : Bytes) : Upgrade :=
  { s with
    sent := s.sent + sentNow.length
    socket := s.socket ++ sentNow
    event := s.event || (s.pc.isArmed && s.threads.conn.interest == .epollin) }

def startFrame (frame : WebSocketFrame) (consumed : Nat) : Upgrade :=
  { s with threads := s.threads.step (.frame frame), consumed }.settle

/-- One step of one party, for a client that sends `frames`. -/
def step (frames : List ClientFrame) (s : Upgrade) : UpgradeOp → Upgrade
  | .send n => s.arrive (((frames.map ClientFrame.encode).flatten.drop s.sent).take n)
  | .httpRecv n => { s with socket := s.socket.drop n }
  | .upgrade => s.upgradeStep
  | .readable =>
    if s.pc.isArmed ∧ s.threads.reader = .idle then
      { s with threads := s.threads.step .readable, event := false }
    else s
  | .recv n =>
    if s.threads.reader = .recv then
      { s with socket := s.socket.drop n }.setBuffer (s.readBuffer ++ s.socket.take n)
    else s
  | .recvEnds stop =>
    -- EAGAIN and EOF come behind the last byte
    if stop = .error ∨ s.socket = [] then { s with threads := s.threads.step (.recvEnds stop) } else s
  | .frame =>
    if s.threads.reader = .loop then
      match WebSocketFrame.parse s.readBuffer with
      | .ok (some (frame, consumed)) => s.startFrame frame consumed
      | _ => s
    else s
  | .loopEnds =>
    match WebSocketFrame.parse s.readBuffer with
    | .ok none => { s with threads := s.threads.step .loopEnds }
    | _ => s
  | .throws =>
    match WebSocketFrame.parse s.readBuffer with
    | .error _ => { s with threads := s.threads.step .throws }
    | .ok _ => if s.threads.reader = .callback then { s with threads := s.threads.step .throws } else s
  | .reader => if s.threads.reader = .loop then s else { s with threads := s.threads.step .reader }.settle
  | .writer op =>
    if s.pc.isArmed ∧ op.isWriter then
      { s with
        threads := s.threads.step op
        event := s.event || (s.threads.armsRead op && !s.socket.isEmpty) }
    else s
  | .dropEvent => if s.threads.conn.interest = .epollout then { s with event := false } else s

end Upgrade

end Ryklys
