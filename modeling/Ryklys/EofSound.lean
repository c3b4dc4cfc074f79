import Ryklys.FramingSound
import Ryklys.StreamSound

/-!
# EOF behind received data

Both kinds of connection return from `OnReadable` as soon as `recv` reports the
end of the stream, with what was drained before it unread. An EOF in the same
call is then handled as one in a later call exactly when there was nothing to
handle: no complete request, respectively no complete frame, at the front of
the buffer (`eof_same_call_iff`).
-/

namespace Ryklys

open Search SelfDelimiting

/-! ## HTTP connections -/

/-- A request that `OnReadable` cuts off and hands over is at the front of the
buffer. A size that wrapped to 0 cuts off the empty request, which parses. -/
def CompleteRequest (buf : Bytes) : Prop :=
  ∃ headerEnd, find crlfcrlf buf = some headerEnd ∧ ¬ BlankLength (buf.take headerEnd) ∧
    requestSize (buf.take headerEnd) ≤ buf.length ∧
    (requestSize (buf.take headerEnd) = 0 ∨
      headerEnd + 4 ≤ requestSize (buf.take headerEnd) ∧ KnownMethod (buf.take headerEnd))

theorem completeRequest_iff (X : Externals) {buf : Bytes} :
    CompleteRequest buf ↔ ∃ completeRequest rest request,
      cutRequest buf = .ok (some (completeRequest, rest)) ∧ parse X completeRequest = .ok request := by
  constructor
  · intro h
    obtain ⟨headerEnd, hf, hb, hsize, h0 | ⟨hle, hm⟩⟩ := h
    · refine ⟨buf.take (requestSize (buf.take headerEnd)), buf.drop (requestSize (buf.take headerEnd)),
        { method := X.indeterminate }, ?_, ?_⟩
      · rw [cutRequest_eq hf, if_neg hb, if_neg (Nat.not_lt.mpr hsize)]
      · rw [h0, List.take_zero]
        rfl
    · obtain ⟨request, hr⟩ := readRequest_of_known X
        ((buf.drop (headerEnd + 4)).take (requestSize (buf.take headerEnd) - (headerEnd + 4))) hm
      refine ⟨buf.take (requestSize (buf.take headerEnd)), buf.drop (requestSize (buf.take headerEnd)), request, ?_, ?_⟩
      · rw [cutRequest_eq hf, if_neg hb, if_neg (Nat.not_lt.mpr hsize)]
      · rw [parse_take hf hle, hr]
  · intro h
    obtain ⟨completeRequest, rest, request, hcut, hparse⟩ := h
    cases hf : find crlfcrlf buf with
    | none => rw [cutRequest_none hf] at hcut; cases hcut
    | some headerEnd =>
      rw [cutRequest_eq hf] at hcut
      split at hcut
      · cases hcut
      rename_i hb
      split at hcut
      · cases hcut
      rename_i hsize
      cases hcut
      refine ⟨headerEnd, hf, hb, Nat.le_of_not_lt hsize, ?_⟩
      rcases Nat.lt_or_ge (requestSize (buf.take headerEnd)) (headerEnd + 4) with hs | hle
      · rw [parse_take_short hf hs] at hparse
        split at hparse
        · rename_i h0
          exact Or.inl h0
        · cases hparse
      · rw [parse_take hf hle] at hparse
        exact Or.inr ⟨hle, (readRequest_ok hparse).1⟩

/-- **HTTP.** With the EOF in the same call a complete request is not handed over. -/
theorem http_eof_iff (X : Externals) (S : ZvejysServer) (c : HttpConnection) (chunks : List Bytes) :
    ((c.readStep X S ⟨chunks, .eagain⟩).readStep X S ⟨[], .eof⟩).handled = (c.readStep X S ⟨chunks, .eof⟩).handled ↔
      ¬ CompleteRequest (c.readBuffer ++ chunks.flatten) := by
  change (c.onReadable X S ⟨chunks, .eagain⟩).1.handled = c.handled ↔ _
  rw [completeRequest_iff X, onReadable_eagain]
  cases hcut : cutRequest (c.readBuffer ++ chunks.flatten) with
  | error e => simp
  | ok r =>
    cases r with
    | none => simp
    | some p =>
      obtain ⟨completeRequest, rest⟩ := p
      cases hparse : parse X completeRequest with
      | error e => simp [hparse]
      | ok request => simp [hparse]

/-! ## WebSocket connections -/

def CompleteFrame (buf : Bytes) : Prop := ∃ r, WebSocketFrame.parse buf = .ok (some r)

/-- Two connections have dispatched the same frames and made the same
notifications. -/
def SameDispatched (c c' : WebSocketConnection) : Prop :=
  c.dispatched = c'.dispatched ∧ c.messageCalls = c'.messageCalls ∧ c.closeCalls = c'.closeCalls

/-- **WebSocket.** With the EOF in the same call a complete frame is not dispatched. -/
theorem ws_eof_iff (c : WebSocketConnection) (chunks : List Bytes) (reactions later : List Reaction) :
    SameDispatched ((c.step (.readable ⟨chunks, .eagain⟩ reactions)).step (.readable ⟨[], .eof⟩ later))
        (c.step (.readable ⟨chunks, .eof⟩ reactions)) ↔
      ¬ CompleteFrame (c.readBuffer ++ chunks.flatten) := by
  -- a read that meets the EOF only sets the state
  change SameDispatched (c.onReadable ⟨chunks, .eagain⟩ reactions).1 c ↔ _
  simp only [WebSocketConnection.onReadable, drain_eq]
  generalize c.readBuffer ++ chunks.flatten = buf
  have harm : SameDispatched { c with readBuffer := buf }.armIfQueued c := by
    unfold WebSocketConnection.armIfQueued
    split <;> exact ⟨rfl, rfl, rfl⟩
  cases hl : buf.length with
  | zero =>
    rw [List.length_eq_zero_iff.mp hl] at harm ⊢
    refine iff_of_true harm ?_
    rintro ⟨r, hr⟩
    cases hr
  | succ fuel =>
    have hnone : frameDec buf = none → ¬ CompleteFrame buf := by
      rintro hd ⟨r, hr⟩
      simp [frameDec, hr] at hd
    rcases frameLoop_cases fuel { c with readBuffer := buf } reactions with
      ⟨hd, he | ⟨e, -, he⟩⟩ | ⟨frame, consumed, hd, -⟩
    · rw [he]
      exact iff_of_true harm (hnone hd)
    · rw [he]
      exact iff_of_true ⟨rfl, rfl, rfl⟩ (hnone hd)
    · have hspec := (frameLoop_spec (fuel + 1) { c with readBuffer := buf } reactions).dispatched
      rw [extract, hd] at hspec
      refine iff_of_false (fun h => ?_) (not_not.mpr ?_)
      · have := congrArg List.length (hspec.symm.trans h.1)
        simp [attended] at this
      · simp only [frameDec] at hd
        split at hd
        · rename_i r hr
          exact ⟨_, by rw [hr, hd]⟩
        · cases hd

/-- **EOF.** An EOF in the call that drains the data is handled as one in a
later call exactly when the data completes no request, respectively no frame. -/
theorem eof_same_call_iff (X : Externals) (S : ZvejysServer) (c : HttpConnection) (w : WebSocketConnection)
    (chunks : List Bytes) (reactions later : List Reaction) :
    (((c.readStep X S ⟨chunks, .eagain⟩).readStep X S ⟨[], .eof⟩).handled =
        (c.readStep X S ⟨chunks, .eof⟩).handled ↔ ¬ CompleteRequest (c.readBuffer ++ chunks.flatten)) ∧
    (SameDispatched ((w.step (.readable ⟨chunks, .eagain⟩ reactions)).step (.readable ⟨[], .eof⟩ later))
        (w.step (.readable ⟨chunks, .eof⟩ reactions)) ↔ ¬ CompleteFrame (w.readBuffer ++ chunks.flatten)) :=
  ⟨http_eof_iff X S c chunks, ws_eof_iff w chunks reactions later⟩

/-- A request and a CLOSE frame that arrive together with the FIN. -/
theorem eof_same_call_differs :
    (((HttpConnection.readStep ⟨fun _ => .error .other, .GET⟩ (.new {} none) {}
        ⟨[bytes "GET / HTTP/1.1\r\n\r\n"], .eagain⟩).readStep ⟨fun _ => .error .other, .GET⟩ (.new {} none)
          ⟨[], .eof⟩).handled.length ≠
      (HttpConnection.readStep ⟨fun _ => .error .other, .GET⟩ (.new {} none) {}
        ⟨[bytes "GET / HTTP/1.1\r\n\r\n"], .eof⟩).handled.length) ∧
    ((WebSocketConnection.step { onClose := true } (.readable ⟨[[0x88, 0]], .eagain⟩ [])).step
        (.readable ⟨[], .eof⟩ [])).closeCalls ≠
      (WebSocketConnection.step { onClose := true } (.readable ⟨[[0x88, 0]], .eof⟩ [])).closeCalls :=
  ⟨by decide, by decide⟩

end Ryklys
