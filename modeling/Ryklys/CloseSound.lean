import Ryklys.StreamSound

/-!
# Close notification

`on_close_` is invoked for every CLOSE frame dispatched and nowhere else, while
an EOF and a failing `send` also set the state to CLOSED. Closed connections
are therefore the notified ones exactly on the runs that never close without a
CLOSE frame and never dispatch one on a closed connection (`closed_once_iff`).
-/

namespace Ryklys

open Runs SelfDelimiting

/-- `on_close_` was invoked once if the connection is closed, and never before. -/
def ClosedOnce (c : WebSocketConnection) : Prop := c.closeCalls.length = if c.state = .CLOSED then 1 else 0

instance (c : WebSocketConnection) : Decidable (ClosedOnce c) := inferInstanceAs (Decidable (_ = _))

def bufferedFrames (buf : Bytes) : List WebSocketFrame := (extract frameDec buf.length buf).1

/-- How many CLOSE frames the loop dispatches before a callback throws. -/
def closesIn (c : WebSocketConnection) (reactions : List Reaction) (buf : Bytes) : Nat :=
  (attended c.onMessage c.onClose reactions (bufferedFrames buf)).countP isClose

/-- The condition of a step: an EOF or a failing `send` only meets a closed
connection, and a CLOSE frame only one that is not closed. -/
def NotifiesOnce (c : WebSocketConnection) : WsOp → Prop
  | .readable d reactions =>
    match d.stop with
    | .eof => c.state = .CLOSED
    | .error => True
    | .eagain =>
      closesIn c reactions (c.readBuffer ++ d.chunks.flatten) ≤ if c.state = .CLOSED then 0 else 1
  | .writable results => failsAt c.writeQueue c.writeOffset results = true → c.state = .CLOSED
  | .call _ => True

theorem closedOnce_of_sendsOnly {c c' : WebSocketConnection} (h : SendsOnly c c') : ClosedOnce c' ↔ ClosedOnce c := by
  simp only [ClosedOnce, h.closeCalls, h.closed]

theorem closedOnce_closed {c c' : WebSocketConnection} (h : ClosedOnce c) (hc : c'.closeCalls = c.closeCalls)
    (hs : c'.state = .CLOSED) : ClosedOnce c' ↔ c.state = .CLOSED := by
  rw [ClosedOnce, hc, hs, if_pos rfl, h]
  split <;> simp_all

theorem closedOnce_dispatchesAll {c c' : WebSocketConnection} {frames : List WebSocketFrame} (h : ClosedOnce c)
    (hi : c.onClose = true) (hd : DispatchesAll c c' frames) :
    ClosedOnce c' ↔ frames.countP isClose ≤ if c.state = .CLOSED then 0 else 1 := by
  rw [ClosedOnce, hd.closeCalls, hi, if_pos rfl, h]
  simp only [hd.closed]
  by_cases hs : c.state = .CLOSED
  · simp only [hs, if_true, true_or]
    omega
  · simp only [hs, if_false, false_or]
    split <;> omega

theorem step_closedOnce (c : WebSocketConnection) (o : WsOp) (hi : c.onClose = true) (h : ClosedOnce c) :
    ClosedOnce (c.step o) ↔ NotifiesOnce c o := by
  cases o with
  | readable d reactions =>
    obtain ⟨chunks, stop⟩ := d
    cases stop with
    | eof => exact closedOnce_closed h rfl rfl
    | error => exact iff_of_true h trivial
    | eagain =>
      have hl := frameLoop_spec (c.readBuffer ++ chunks.flatten).length
        { c with readBuffer := c.readBuffer ++ chunks.flatten } reactions
      have hiff := closedOnce_dispatchesAll (c := { c with readBuffer := c.readBuffer ++ chunks.flatten }) h hi hl
      simp only [WebSocketConnection.step, WebSocketConnection.onReadable, drain_eq]
      exact hiff
  | writable results =>
    obtain ⟨p, hp, he⟩ := onWritable_spec results c
    simp only [WebSocketConnection.step, NotifiesOnce, he]
    by_cases hf : failsAt c.writeQueue c.writeOffset results = true
    · rw [if_pos hf, closedOnce_closed h (by simpa using hp.closeCalls) rfl]
      simp [hf]
    · rw [if_neg hf, closedOnce_of_sendsOnly hp]
      simp [hf, h]
  | call w => exact iff_of_true ((closedOnce_of_sendsOnly (SendsOnly.call c w)).mpr h) trivial

theorem step_onClose (c : WebSocketConnection) (o : WsOp) (hi : c.onClose = true) : (c.step o).onClose = true := by
  cases o with
  | readable d reactions =>
    obtain ⟨chunks, stop⟩ := d
    cases stop with
    | eof => exact hi
    | error => exact hi
    | eagain => exact (frameLoop_spec _ _ reactions).onClose.trans hi
  | writable results =>
    obtain ⟨p, hp, he⟩ := onWritable_spec results c
    rw [WebSocketConnection.step, he]
    split <;> exact hp.onClose.trans hi
  | call w => exact (SendsOnly.call c w).onClose.trans hi

/-- **Close notification.** In every state of a run `on_close_` was invoked once
if the connection is closed and never otherwise, exactly when every step of the
run meets the condition. -/
theorem closed_once_iff (onMessage : Bool) (ops : List WsOp) :
    Always WebSocketConnection.step ClosedOnce { onMessage, onClose := true } ops ↔
      EachStep WebSocketConnection.step NotifiesOnce { onMessage, onClose := true } ops :=
  always_iff WebSocketConnection.step (J := fun c => c.onClose = true) step_onClose step_closedOnce rfl rfl

/-- Nothing is notified at an EOF or a failing `send`, and two CLOSE frames in
one batch are notified twice. -/
theorem not_closed_once :
    ¬ Always WebSocketConnection.step ClosedOnce { onClose := true } [.readable ⟨[], .eof⟩ []] ∧
    ¬ Always WebSocketConnection.step ClosedOnce { onClose := true } [.call (.sendPing []), .writable [.error]] ∧
    ¬ Always WebSocketConnection.step ClosedOnce { onClose := true }
      [.readable ⟨[[0x88, 0, 0x88, 0]], .eagain⟩ []] :=
  ⟨fun h => absurd (h.last WebSocketConnection.step) (by decide),
   fun h => absurd (h.last WebSocketConnection.step) (by decide),
   fun h => absurd (h.last WebSocketConnection.step) (by decide)⟩

end Ryklys
