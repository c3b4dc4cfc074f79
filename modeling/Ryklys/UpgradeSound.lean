import Ryklys.CloseSound
import Ryklys.Upgrade

/-!
# No message is lost in the upgrade, while the handler is there

The client's bytes are at every moment those of the frames dispatched, the
read buffer and the socket, in this order, unless the old HttpConnection takes
some. A message is dispatched to nobody while `on_message_` is empty
(`message_lost`), so every message is passed on in the runs where neither
happens, and no `OnReadable` returns with messages left over (`upgrade_lossless`).
-/

namespace Ryklys

open Runs SelfDelimiting
open scoped List

def messages (frames : List WebSocketFrame) : List (Bytes × WsOpcode) :=
  (frames.filter isMessage).map fun frame => (frame.payload, frame.opcode)

theorem messages_append (a b : List WebSocketFrame) : messages (a ++ b) = messages a ++ messages b := by
  rw [messages, List.filter_append, List.map_append]
  rfl

/-! ## Frames complete in a buffer -/

theorem completed_append (done rest : List ClientFrame) (n : Nat) :
    frameCodec.completed (done ++ rest) ((frameCodec.stream done).length + n) =
      done.length + frameCodec.completed rest n := by
  induction done with
  | nil => simp
  | cons f done ih =>
    rw [List.cons_append, Codec.completed, Codec.stream_cons, List.length_append, if_pos (by omega)]
    rw [show (frameCodec.enc f).length + (frameCodec.stream done).length + n - (frameCodec.enc f).length =
      (frameCodec.stream done).length + n by omega, ih, List.length_cons]
    omega

theorem bufferedFrames_stream (rest : List ClientFrame) (n : Nat) :
    bufferedFrames ((frameCodec.stream rest).take n) =
      (rest.take (frameCodec.completed rest n)).map ClientFrame.frame := by
  have hn := frameCodec.completed_le rest n
  have hall := frameCodec.completed_le rest (frameCodec.stream rest).length
  have hlen := frameCodec.completed_le_length rest n
  rw [frameCodec.completed_stream] at hall
  have h := frameCodec.extract_stream ((frameCodec.stream rest).take n).length rest n
  rw [List.length_take, Nat.min_eq_right (Nat.le_min.mpr ⟨hn, Nat.le_trans hlen hall⟩)] at h
  rw [bufferedFrames, List.length_take]
  exact congrArg Prod.fst h

theorem parse_stream {rest : List ClientFrame} {n : Nat} {frame : WebSocketFrame} {consumed : Nat}
    (h : WebSocketFrame.parse ((frameCodec.stream rest).take n) = .ok (some (frame, consumed))) :
    ∃ f rest', rest = f :: rest' ∧ f.frame = frame ∧ f.encode.length = consumed ∧
      f.encode <+: (frameCodec.stream rest).take n := by
  have hd : frameCodec.dec ((frameCodec.stream rest).take n) = some (frame, consumed) := by
    rw [show frameCodec.dec = frameDec from rfl, frameDec, h]
  cases rest with
  | nil => simp [frameCodec.dec_nil] at hd
  | cons f rest' =>
    rw [Codec.dec_stream_cons] at hd
    split at hd
    · rename_i hle
      rw [Option.some.injEq, Prod.mk.injEq] at hd
      refine ⟨f, rest', rfl, hd.1, hd.2, ?_⟩
      rw [Codec.stream_cons, List.take_append, List.take_of_length_le hle]
      exact List.prefix_append _ _
    · cases hd

theorem completed_of_parse_none {rest : List ClientFrame} {n : Nat}
    (h : WebSocketFrame.parse ((frameCodec.stream rest).take n) = .ok none) : frameCodec.completed rest n = 0 := by
  cases rest with
  | nil => rfl
  | cons f rest =>
    have hd : frameCodec.dec ((frameCodec.stream (f :: rest)).take n) = none := by
      rw [show frameCodec.dec = frameDec from rfl, frameDec, h]
    rw [Codec.dec_stream_cons] at hd
    rw [Codec.completed]
    by_cases hle : (frameCodec.enc f).length ≤ n
    · rw [if_pos hle] at hd
      cases hd
    · rw [if_neg hle]

/-! ## What a thread step leaves alone -/

inductive Phase where
  | idle
  | recv
  | loop
  | dispatch
  deriving DecidableEq

def Reader.phase : Reader → Phase
  | .idle => .idle
  | .lastLook => .idle
  | .lastArm => .idle
  | .recv => .recv
  | .loop => .loop
  | _ => .dispatch

theorem Reader.phase_loop {r : Reader} : r.phase = .loop ↔ r = .loop := by
  cases r <;> simp [phase]

namespace Threads

/-- What was read and what was called is the same, `OnReadable` is in the same
part or through with the frame, and EPOLLIN is not armed but by `ArmForRead`. -/
structure SameRead (s : Threads) (o : ThreadOp) (s' : Threads) : Prop where
  readBuffer : s'.conn.readBuffer = s.conn.readBuffer
  messageCalls : s'.conn.messageCalls = s.conn.messageCalls
  onMessage : s'.conn.onMessage = s.conn.onMessage
  phase : s'.reader.phase = s.reader.phase ∨ (o = .reader ∧ s.reader.phase = .dispatch ∧ s'.reader = .loop)
  interest : s'.conn.interest = .epollin → s.conn.interest = .epollin ∨ s.armsRead o = true

section
variable {s s' : Threads} {o : ThreadOp}

theorem sameRead_conn (hc : s'.conn = s.conn)
    (hp : s'.reader.phase = s.reader.phase ∨ (o = .reader ∧ s.reader.phase = .dispatch ∧ s'.reader = .loop)) :
    SameRead s o s' := by
  refine ⟨?_, ?_, ?_, hp, ?_⟩
  · rw [hc]
  · rw [hc]
  · rw [hc]
  · rw [hc]
    exact .inl

theorem SameRead.refl (s : Threads) : SameRead s o s := sameRead_conn rfl (.inl rfl)

theorem SameRead.unlock (hs : SameRead s o s') (h : Holder) (hr : s'.reader = s.reader) :
    SameRead s o (s'.unlock h) := by
  refine ⟨hs.readBuffer, hs.messageCalls, hs.onMessage, .inl ?_, hs.interest⟩
  rw [← hr]
  unfold Threads.unlock
  cases h.byReader with
  | false => rfl
  | true => cases s'.reader <;> rfl

theorem accept_messageCalls (c : WebSocketConnection) (data : Bytes) (queue : List Bytes) (n : Nat) :
    (c.accept data queue n).messageCalls = c.messageCalls := by
  unfold WebSocketConnection.accept
  simp only
  split <;> rfl

theorem armForWrite_ne (c : WebSocketConnection) : c.armForWrite.interest ≠ .epollin := by
  intro h
  cases h

theorem sameRead_holderStep {h : Holder} (hh : s.holder = some h) (result : SendResult) :
    SameRead s (.holder result) (s.holderStep h result) := by
  unfold holderStep
  cases hpc : h.pc with
  | push frame => exact ⟨rfl, rfl, rfl, .inl rfl, .inl⟩
  | arm =>
    have hs : SameRead s (.holder result) { s with conn := s.conn.armForWrite } :=
      ⟨rfl, rfl, rfl, .inl rfl, fun hi => absurd hi (armForWrite_ne s.conn)⟩
    exact hs.unlock h rfl
  | closeTest code reason =>
    simp only
    split
    · exact sameRead_conn rfl (.inl rfl)
    · exact (SameRead.refl s).unlock h rfl
  | closeSet code reason => exact ⟨rfl, rfl, rfl, .inl rfl, .inl⟩
  | flush =>
    simp only
    split
    · exact sameRead_conn rfl (.inl rfl)
    · rename_i data queue hq
      cases result with
      | accepted n =>
        have ha := SendsOnly.accept s.conn data queue n
        refine ⟨ha.readBuffer, accept_messageCalls s.conn data queue n, ha.onMessage, .inl rfl, ?_⟩
        intro hi
        exact .inl ((accept_spec s.conn data queue n).2.2 ▸ hi)
      | eagain => exact (SameRead.refl s).unlock h rfl
      | error =>
        have hs : SameRead s (.holder .error) { s with conn := { s.conn with state := .CLOSED } } :=
          ⟨rfl, rfl, rfl, .inl rfl, .inl⟩
        exact hs.unlock h rfl
  | armRead =>
    have harms : s.armsRead (.holder result) = true := by simp [armsRead, hh, hpc]
    have hs : SameRead s (.holder result) { s with conn := s.conn.armForRead } :=
      ⟨rfl, rfl, rfl, .inl rfl, fun _ => .inr harms⟩
    exact hs.unlock h rfl

theorem sameRead_writer (s : Threads) (h : o.isWriter = true) : SameRead s o (s.step o) := by
  cases o with
  | call w => exact or_stay (.refl s) fun _ => sameRead_conn rfl (.inl rfl)
  | broadcastTest message => exact or_stay (.refl s) fun _ => sameRead_conn rfl (.inl rfl)
  | broadcastSend message => exact or_stay (.refl s) fun _ => sameRead_conn rfl (.inl rfl)
  | writable => exact or_stay (.refl s) fun _ => sameRead_conn rfl (.inl rfl)
  | holder result =>
    cases hh : s.holder with
    | none =>
      simp only [step, hh]
      exact .refl s
    | some h =>
      rw [holder_step hh]
      exact sameRead_holderStep hh result
  | _ => cases h

theorem sameRead_readerStep (s : Threads) : SameRead s .reader s.readerStep := by
  unfold readerStep
  cases hr : s.reader with
  | pushPong payload => exact ⟨rfl, rfl, rfl, .inl (by rw [hr]; rfl), .inl⟩
  | armPong =>
    exact ⟨rfl, rfl, rfl, .inr ⟨rfl, by rw [hr]; rfl, rfl⟩, fun hi => absurd hi (armForWrite_ne s.conn)⟩
  | closeTest code reason =>
    refine sameRead_conn rfl (.inl ?_)
    rw [hr]
    simp only
    split <;> rfl
  | lockClose code reason =>
    simp only
    split
    · exact sameRead_conn rfl (.inl (by rw [hr]; rfl))
    · exact .refl s
  | setClosed code reason => exact ⟨rfl, rfl, rfl, .inl (by rw [hr]; rfl), .inl⟩
  | notify code reason =>
    simp only
    split
    · exact ⟨rfl, rfl, rfl, .inl (by rw [hr]; rfl), .inl⟩
    · exact sameRead_conn rfl (.inr ⟨rfl, by rw [hr]; rfl, rfl⟩)
  | callback => exact sameRead_conn rfl (.inr ⟨rfl, by rw [hr]; rfl, rfl⟩)
  | lastLook =>
    refine sameRead_conn rfl (.inl ?_)
    rw [hr]
    simp only
    split <;> rfl
  | lastArm => exact ⟨rfl, rfl, rfl, .inl (by rw [hr]; rfl), fun hi => absurd hi (armForWrite_ne s.conn)⟩
  | _ => exact .refl s

end

end Threads

namespace Upgrade

/-! ## The messages of the client -/

/-- Every worker is done, and epoll has nothing to report to the next one. -/
def AtRest (s : Upgrade) : Prop :=
  s.pc.isArmed = true ∧ s.threads.reader = .idle ∧ s.threads.conn.interest = .epollin ∧ s.event = false

/-- At rest the messages of the frames that the client has sent completely were
all passed to `on_message_`, in their order. -/
def AllPassed (frames : List ClientFrame) (s : Upgrade) : Prop :=
  s.AtRest →
    messages ((frames.take (frameCodec.completed frames s.sent)).map ClientFrame.frame) <+ s.messageCalls

def front (s : Upgrade) : Option WebSocketFrame := (frameDec s.readBuffer).map Prod.fst

/-- The condition of a step: the old HttpConnection gets no byte, a message is
dispatched with `on_message_` installed, and `OnReadable` does not return at an
EOF, an error or an exception with messages left over. -/
def KeepsMessages (s : Upgrade) : UpgradeOp → Prop
  | .httpRecv n => s.socket.take n = []
  | .frame =>
    s.threads.reader = .loop → ∀ frame ∈ s.front, isMessage frame = true → s.threads.conn.onMessage = true
  | .recvEnds stop =>
    s.threads.reader = .recv → stop ≠ .eagain → s.socket = [] ∧ messages (bufferedFrames s.readBuffer) = []
  | .throws =>
    s.threads.reader = .callback → messages (bufferedFrames (s.readBuffer.drop s.consumed)) = []
  | _ => True

instance (s : Upgrade) (o : UpgradeOp) : Decidable (s.KeepsMessages o) := by
  unfold KeepsMessages
  split <;> infer_instance

/-! ## The bytes of the client -/

/-- What is known of the frames that are not dispatched yet. -/
def Pending (s : Upgrade) (done rest : List ClientFrame) : Phase → Prop
  | .idle =>
    messages ((done ++ rest.take (frameCodec.completed rest s.readBuffer.length)).map ClientFrame.frame) <+
      s.messageCalls
  | .recv => True
  | .loop => True
  | .dispatch => ∃ f rest', rest = f :: rest' ∧ f.encode <+: s.readBuffer ∧ s.consumed = f.encode.length ∧
      messages ((done ++ [f]).map ClientFrame.frame) <+ s.messageCalls

/-- The frames `done` were dispatched, the bytes of the others are in the read
buffer and behind it in the socket. -/
structure Holds (frames done rest : List ClientFrame) (s : Upgrade) : Prop where
  split : done ++ rest = frames
  sent_le : s.sent ≤ (frameCodec.stream frames).length
  bytes : (frameCodec.stream frames).take s.sent = frameCodec.stream done ++ (s.readBuffer ++ s.socket)
  passed : messages (done.map ClientFrame.frame) <+ s.messageCalls
  pending : s.Pending done rest s.threads.reader.phase
  reported : s.pc.isArmed = true → s.threads.conn.interest = .epollin → s.threads.reader.phase ≠ .recv →
    s.socket ≠ [] → s.event = true

def UpgradeInv (frames : List ClientFrame) (s : Upgrade) : Prop := ∃ done rest, Holds frames done rest s

section
variable {frames done rest : List ClientFrame} {s s' : Upgrade}

theorem Holds.buffer (h : Holds frames done rest s) :
    s.readBuffer = (frameCodec.stream rest).take s.readBuffer.length := by
  have hpre : s.readBuffer ++ s.socket <+: frameCodec.stream rest := by
    rw [← List.prefix_append_right_inj (frameCodec.stream done), ← h.bytes, ← Codec.stream_append, h.split]
    exact List.take_prefix _ _
  apply frameCodec.prefix_eq_take
  exact (List.prefix_append _ _).trans hpre

theorem Holds.allPassed (h : Holds frames done rest s) : AllPassed frames s := by
  intro ⟨harm, hidle, hin, hev⟩
  have hsock : s.socket = [] := by
    by_contra hne
    have he := h.reported harm hin (by rw [hidle]; decide) hne
    rw [hev] at he
    cases he
  have hlen := congrArg List.length h.bytes
  rw [List.length_take, Nat.min_eq_left h.sent_le, List.length_append, hsock, List.append_nil] at hlen
  have hp := h.pending
  rw [hidle] at hp
  rw [hlen, ← h.split, completed_append, List.take_length_add_append]
  exact hp

theorem Holds.congr (h : Holds frames done rest s) (hb : s'.readBuffer = s.readBuffer)
    (hm : s'.messageCalls = s.messageCalls) (hs : s'.sent = s.sent) (hk : s'.socket = s.socket)
    (hc : s'.consumed = s.consumed) (hp : s'.threads.reader.phase = s.threads.reader.phase)
    (hr : s'.pc.isArmed = true → s'.threads.conn.interest = .epollin → s.threads.reader.phase ≠ .recv →
      s.socket ≠ [] → s'.event = true) : Holds frames done rest s' := by
  refine ⟨h.split, ?_, ?_, ?_, ?_, ?_⟩
  · rw [hs]
    exact h.sent_le
  · rw [hs, hb, hk]
    exact h.bytes
  · rw [hm]
    exact h.passed
  · have hpend := h.pending
    rw [← hp] at hpend
    cases hph : s'.threads.reader.phase with
    | idle =>
      rw [hph] at hpend
      rw [Pending, hb, hm]
      exact hpend
    | recv => trivial
    | loop => trivial
    | dispatch =>
      rw [hph] at hpend
      rw [Pending, hb, hm, hc]
      exact hpend
  · rw [hp, hk]
    exact hr

/-! ## The steps -/

theorem holds_send (h : Holds frames done rest s) (n : Nat) :
    Holds frames done rest (s.arrive (((frameCodec.stream frames).drop s.sent).take n)) := by
  have hlen : (((frameCodec.stream frames).drop s.sent).take n).length =
      min n ((frameCodec.stream frames).length - s.sent) := by
    rw [List.length_take, List.length_drop]
  have hle := h.sent_le
  refine ⟨h.split, ?_, ?_, h.passed, h.pending, ?_⟩
  · change s.sent + _ ≤ _
    omega
  · change (frameCodec.stream frames).take (s.sent + _) =
      frameCodec.stream done ++ (s.readBuffer ++ (s.socket ++ ((frameCodec.stream frames).drop s.sent).take n))
    rw [List.take_add, h.bytes, List.append_assoc, List.append_assoc, hlen, ← List.length_drop,
      ← List.take_eq_take_min]
  · intro harm hin _ _
    change (s.event || (s.pc.isArmed && s.threads.conn.interest == .epollin)) = true
    rw [show s.pc.isArmed = true from harm, show s.threads.conn.interest = .epollin from hin]
    exact Bool.or_true _

theorem holds_httpRecv (h : Holds frames done rest s) {n : Nat} (hn : s.socket.take n = []) :
    Holds frames done rest { s with socket := s.socket.drop n } := by
  have hk : s.socket.drop n = s.socket := by
    have he := List.take_append_drop n s.socket
    rwa [hn, List.nil_append] at he
  rw [hk]
  exact h

theorem holds_upgrade (h : Holds frames done rest s) : Holds frames done rest s.upgradeStep := by
  unfold upgradeStep
  cases hpc : s.pc with
  | handshakeSent => exact h.congr rfl rfl rfl rfl rfl rfl fun harm => by cases harm
  | published =>
    refine h.congr rfl rfl rfl rfl rfl rfl ?_
    intro _ _ _ hne
    -- a socket that is readable when it is armed is reported
    simp [hne]
  | armed => exact h.congr rfl rfl rfl rfl rfl rfl fun _ hin => h.reported (by rw [hpc]; rfl) hin
  | messageSet => exact h.congr rfl rfl rfl rfl rfl rfl fun _ hin => h.reported (by rw [hpc]; rfl) hin
  | closeSet => exact h

theorem holds_readable (h : Holds frames done rest s) (hr : s.threads.reader = .idle) :
    Holds frames done rest { s with threads := s.threads.step .readable, event := false } := by
  have ht : s.threads.step .readable = { s.threads with reader := .recv } := by rw [Threads.step, if_pos hr]
  rw [ht]
  exact ⟨h.split, h.sent_le, h.bytes, h.passed, trivial, fun _ _ hn => absurd rfl hn⟩

theorem holds_recv (h : Holds frames done rest s) (hr : s.threads.reader = .recv) (n : Nat) :
    Holds frames done rest
      ({ s with socket := s.socket.drop n }.setBuffer (s.readBuffer ++ s.socket.take n)) := by
  refine ⟨h.split, h.sent_le, ?_, h.passed, ?_, ?_⟩
  · change _ = frameCodec.stream done ++ ((s.readBuffer ++ s.socket.take n) ++ s.socket.drop n)
    rw [List.append_assoc, List.take_append_drop]
    exact h.bytes
  · change Pending _ _ _ s.threads.reader.phase
    rw [hr]
    trivial
  · intro _ _ hn
    change s.threads.reader.phase ≠ .recv at hn
    rw [hr] at hn
    exact absurd rfl hn

theorem Holds.pending_idle (h : Holds frames done rest s) (hnone : messages (bufferedFrames s.readBuffer) = []) :
    messages ((done ++ rest.take (frameCodec.completed rest s.readBuffer.length)).map ClientFrame.frame) <+
      s.messageCalls := by
  rw [h.buffer, bufferedFrames_stream] at hnone
  rw [List.map_append, messages_append, hnone, List.append_nil]
  exact h.passed

theorem holds_recvEnds (h : Holds frames done rest s) (hr : s.threads.reader = .recv) {stop : RecvStop}
    (hstop : stop = .error ∨ s.socket = [])
    (hk : stop ≠ .eagain → s.socket = [] ∧ messages (bufferedFrames s.readBuffer) = []) :
    Holds frames done rest { s with threads := s.threads.step (.recvEnds stop) } := by
  simp only [Threads.step, if_pos hr]
  cases stop with
  | eagain =>
    have hs : s.socket = [] := by
      rcases hstop with hstop | hs
      · cases hstop
      · exact hs
    exact ⟨h.split, h.sent_le, h.bytes, h.passed, trivial, fun _ _ _ hne => absurd hs hne⟩
  | error =>
    obtain ⟨hs, hnone⟩ := hk (by simp)
    exact ⟨h.split, h.sent_le, h.bytes, h.passed, h.pending_idle hnone, fun _ _ _ hne => absurd hs hne⟩
  | eof =>
    obtain ⟨hs, hnone⟩ := hk (by simp)
    exact ⟨h.split, h.sent_le, h.bytes, h.passed, h.pending_idle hnone, fun _ _ _ hne => absurd hs hne⟩

/-! ### Dispatching -/

theorem Holds.pop {f : ClientFrame} (h : Holds frames done (f :: rest) s) (hf : f.encode <+: s.readBuffer)
    (hb : s'.readBuffer = s.readBuffer.drop f.encode.length) (hs : s'.sent = s.sent) (hk : s'.socket = s.socket)
    (hp : messages ((done ++ [f]).map ClientFrame.frame) <+ s'.messageCalls) (hl : s'.threads.reader = .loop)
    (hr : s'.pc.isArmed = true → s'.threads.conn.interest = .epollin → s.socket ≠ [] → s'.event = true) :
    Holds frames (done ++ [f]) rest s' := by
  obtain ⟨t, ht⟩ := hf
  refine ⟨?_, ?_, ?_, hp, ?_, ?_⟩
  · rw [List.append_assoc]
    exact h.split
  · rw [hs]
    exact h.sent_le
  · rw [hs, hk, hb, h.bytes, ← ht, List.drop_left, Codec.stream_append, Codec.stream_cons, Codec.stream_nil]
    simp [frameCodec]
  · rw [hl]
    trivial
  · rw [hk]
    exact fun harm hin _ => hr harm hin

theorem passed_received {f : ClientFrame} (h : messages (done.map ClientFrame.frame) <+ s.messageCalls)
    (hk : isMessage f.frame = true → s.threads.conn.onMessage = true) :
    messages ((done ++ [f]).map ClientFrame.frame) <+ (s.threads.received f.frame).messageCalls := by
  rw [List.map_append, messages_append]
  change _ <+ if isMessage f.frame && s.threads.conn.onMessage then
    s.messageCalls ++ [(f.frame.payload, f.frame.opcode)] else s.messageCalls
  by_cases hm : isMessage f.frame = true
  · rw [hm, hk hm, Bool.and_true, if_pos rfl]
    refine h.append ?_
    simp [messages, hm]
  · rw [Bool.not_eq_true] at hm
    rw [hm, Bool.false_and, if_neg Bool.false_ne_true]
    simpa [messages, hm] using h

theorem dispatch_phase (t : Threads) (frame : WebSocketFrame) :
    (t.dispatch frame).phase = .dispatch ∨ t.dispatch frame = .loop := by
  unfold Threads.dispatch
  repeat' split
  · exact .inl rfl
  · exact .inr rfl
  · exact .inl rfl
  · exact .inl rfl
  · exact .inr rfl

theorem inv_startFrame (h : Holds frames done rest s) (hl : s.threads.reader = .loop) {frame : WebSocketFrame}
    {consumed : Nat} (hparse : WebSocketFrame.parse s.readBuffer = .ok (some (frame, consumed)))
    (hk : isMessage frame = true → s.threads.conn.onMessage = true) :
    UpgradeInv frames (s.startFrame frame consumed) := by
  have hparse' := hparse
  rw [h.buffer] at hparse'
  obtain ⟨f, rest', rfl, rfl, rfl, hf⟩ := parse_stream hparse'
  rw [← h.buffer] at hf
  have hpass := passed_received h.passed hk
  have hrep : s.pc.isArmed = true → s.threads.conn.interest = .epollin → s.socket ≠ [] → s.event = true :=
    fun harm hin => h.reported harm hin (by rw [hl]; decide)
  have ht : s.threads.step (.frame f.frame) =
      { s.threads with conn := s.threads.received f.frame, reader := s.threads.dispatch f.frame } := by
    rw [Threads.step, if_pos hl]
  unfold startFrame settle
  rw [ht]
  simp only
  rcases dispatch_phase s.threads f.frame with hd | hd
  · have hne : s.threads.dispatch f.frame ≠ .loop := by
      intro he
      rw [he] at hd
      cases hd
    rw [if_neg hne]
    refine ⟨done, f :: rest', h.split, h.sent_le, h.bytes, ?_, ?_, ?_⟩
    · refine List.Sublist.trans ?_ hpass
      rw [List.map_append, messages_append]
      exact List.sublist_append_left _ _
    · change Pending _ _ _ (s.threads.dispatch f.frame).phase
      rw [hd]
      exact ⟨f, rest', rfl, hf, rfl, hpass⟩
    · exact fun harm hin _ => hrep harm hin
  · rw [if_pos hd]
    exact ⟨done ++ [f], rest', h.pop hf rfl rfl rfl hpass hd hrep⟩

theorem inv_reader (h : Holds frames done rest s) (hl : s.threads.reader ≠ .loop) :
    UpgradeInv frames { s with threads := s.threads.step .reader }.settle := by
  have hs : Threads.SameRead s.threads .reader (s.threads.step .reader) := Threads.sameRead_readerStep s.threads
  have hin : (s.threads.step .reader).conn.interest = .epollin → s.threads.conn.interest = .epollin := by
    intro hi
    rcases hs.interest hi with hi | hf
    · exact hi
    · cases hf
  unfold settle
  rcases hs.phase with hp | ⟨-, hd, hloop⟩
  · have hne : (s.threads.step .reader).reader ≠ .loop := by
      rw [ne_eq, ← Reader.phase_loop, hp, Reader.phase_loop]
      exact hl
    rw [if_neg hne]
    exact ⟨done, rest, h.congr hs.readBuffer hs.messageCalls rfl rfl rfl hp
      fun harm hi => h.reported harm (hin hi)⟩
  · rw [if_pos hloop]
    have hpend := h.pending
    rw [hd] at hpend
    obtain ⟨f, rest', rfl, hf, hc, hpass⟩ := hpend
    refine ⟨done ++ [f], rest', h.pop hf ?_ rfl rfl ?_ hloop ?_⟩
    · change (s.threads.step .reader).conn.readBuffer.drop s.consumed = _
      rw [hs.readBuffer, hc]
      rfl
    · change _ <+ (s.threads.step .reader).conn.messageCalls
      rw [hs.messageCalls]
      exact hpass
    · exact fun harm hi => h.reported harm (hin hi) (by rw [hd]; decide)

theorem inv_loopEnds (h : Holds frames done rest s) (hparse : WebSocketFrame.parse s.readBuffer = .ok none) :
    UpgradeInv frames { s with threads := s.threads.step .loopEnds } := by
  by_cases hl : s.threads.reader = .loop
  · have ht : s.threads.step .loopEnds = { s.threads with reader := .lastLook } := by rw [Threads.step, if_pos hl]
    rw [ht]
    refine ⟨done, rest, h.split, h.sent_le, h.bytes, h.passed, ?_, ?_⟩
    · change messages ((done ++ rest.take (frameCodec.completed rest s.readBuffer.length)).map ClientFrame.frame) <+ _
      rw [h.buffer] at hparse
      rw [completed_of_parse_none hparse, List.take_zero, List.append_nil]
      exact h.passed
    · exact fun harm hin _ => h.reported harm hin (by rw [hl]; decide)
  · have ht : s.threads.step .loopEnds = s.threads := by rw [Threads.step, if_neg hl]
    rw [ht]
    exact ⟨done, rest, h⟩

theorem inv_throws (h : Holds frames done rest s) (hr : s.threads.reader = .callback)
    (hk : messages (bufferedFrames (s.readBuffer.drop s.consumed)) = []) :
    UpgradeInv frames { s with threads := s.threads.step .throws } := by
  have ht : s.threads.step .throws = { s.threads with reader := .idle } := by rw [Threads.step, if_pos (.inr hr)]
  have hpend := h.pending
  rw [hr] at hpend
  obtain ⟨f, rest', rfl, hf, hc, hpass⟩ := hpend
  rw [ht]
  refine ⟨done, f :: rest', h.split, h.sent_le, h.bytes, h.passed, ?_, ?_⟩
  · change messages ((done ++ (f :: rest').take (frameCodec.completed (f :: rest') s.readBuffer.length)).map
      ClientFrame.frame) <+ _
    have hle : (frameCodec.enc f).length ≤ s.readBuffer.length := hf.length_le
    rw [h.buffer, hc, show f.encode = frameCodec.enc f from rfl, Codec.drop_stream_cons, bufferedFrames_stream] at hk
    rw [Codec.completed, if_pos hle, List.take_succ_cons, List.append_cons, List.map_append, messages_append, hk,
      List.append_nil]
    exact hpass
  · exact fun harm hin _ => h.reported harm hin (by rw [hr]; decide)

theorem holds_writer (h : Holds frames done rest s) {o : ThreadOp} (ho : o.isWriter = true) :
    Holds frames done rest { s with
      threads := s.threads.step o
      event := s.event || (s.threads.armsRead o && !s.socket.isEmpty) } := by
  have hs := Threads.sameRead_writer s.threads ho
  have hp : (s.threads.step o).reader.phase = s.threads.reader.phase := by
    rcases hs.phase with hp | ⟨rfl, -, -⟩
    · exact hp
    · cases ho
  refine h.congr hs.readBuffer hs.messageCalls rfl rfl rfl hp ?_
  intro harm hi hn hne
  rcases hs.interest hi with hi | harms
  · simp [h.reported harm hi hn hne]
  · simp [harms, hne]

theorem inv_step {o : UpgradeOp} (hs : UpgradeInv frames s) (hk : s.KeepsMessages o) :
    UpgradeInv frames (step frames s o) := by
  have hinv := hs
  obtain ⟨done, rest, h⟩ := hs
  cases o with
  | send n => exact ⟨done, rest, holds_send h n⟩
  | httpRecv n => exact ⟨done, rest, holds_httpRecv h hk⟩
  | upgrade => exact ⟨done, rest, holds_upgrade h⟩
  | readable => exact or_stay hinv fun hr => ⟨done, rest, holds_readable h hr.2⟩
  | recv n => exact or_stay hinv fun hr => ⟨done, rest, holds_recv h hr n⟩
  | recvEnds stop =>
    refine or_stay hinv fun hstop => ?_
    by_cases hr : s.threads.reader = .recv
    · exact ⟨done, rest, holds_recvEnds h hr hstop (hk hr)⟩
    · have ht : s.threads.step (.recvEnds stop) = s.threads := if_neg hr
      rw [ht]
      exact hinv
  | frame =>
    refine or_stay hinv fun hl => ?_
    split
    · rename_i frame consumed hparse
      refine inv_startFrame h hl hparse ?_
      apply hk hl frame
      rw [front, frameDec, hparse]
      rfl
    · exact hinv
  | loopEnds =>
    simp only [step]
    split
    · rename_i hparse
      exact inv_loopEnds h hparse
    · exact hinv
  | throws =>
    simp only [step]
    split
    · -- the bytes of whole frames are no reason to throw
      rename_i e hparse
      obtain ⟨r, hok⟩ := parse_rest rest s.readBuffer.length
      rw [← h.buffer, hparse] at hok
      cases hok
    · exact or_stay hinv fun hr => inv_throws h hr (hk hr)
  | reader =>
    simp only [step]
    by_cases hl : s.threads.reader = .loop
    · rw [if_pos hl]
      exact hinv
    · rw [if_neg hl]
      exact inv_reader h hl
  | writer o => exact or_stay hinv fun ho => ⟨done, rest, holds_writer h ho.2⟩
  | dropEvent =>
    refine or_stay hinv fun hi => ⟨done, rest, h.congr rfl rfl rfl rfl rfl rfl ?_⟩
    intro _ hin
    rw [show s.threads.conn.interest = .epollin from hin] at hi
    cases hi

end

theorem inv_start (frames : List ClientFrame) : UpgradeInv frames {} := by
  refine ⟨[], frames, rfl, Nat.zero_le _, by simp [readBuffer], List.Sublist.refl _, ?_, ?_⟩
  · have hz : frameCodec.completed frames 0 = 0 := Nat.le_zero.mp (frameCodec.completed_le frames 0)
    change messages (([] ++ frames.take (frameCodec.completed frames 0)).map ClientFrame.frame) <+ _
    rw [hz]
    exact List.Sublist.refl _
  · intro _ _ _ hne
    exact absurd rfl hne

/-! ## Every run -/

/-- **No message is lost in the upgrade** in a run whose steps meet the
condition, however the threads are interleaved. -/
theorem upgrade_lossless {frames : List ClientFrame} {ops : List UpgradeOp}
    (h : EachStep (step frames) KeepsMessages {} ops) : Always (step frames) (AllPassed frames) {} ops := by
  refine always_of_inv (step frames) ?_ (inv_start frames) ?_ h
  · intro s o hs hk
    exact inv_step hs hk
  · intro s hs
    obtain ⟨done, rest, hs⟩ := hs
    exact hs.allPassed

theorem upgrade_lossless_hello :
    Always (step [helloFrame]) (AllPassed [helloFrame]) {}
      [.upgrade, .upgrade, .upgrade, .upgrade, .send 13, .readable, .recv 13, .recvEnds .eagain, .frame, .reader,
        .loopEnds, .reader] :=
  upgrade_lossless (by decide)

/-- The message is read once EPOLLIN is armed and dispatched before the setup
installs `on_message_`; or the old HttpConnection reads it before that. -/
theorem message_lost :
    ¬ AllPassed [helloFrame] (run (step [helloFrame]) {}
      [.upgrade, .upgrade, .send 13, .readable, .recv 13, .recvEnds .eagain, .frame, .loopEnds, .reader, .upgrade,
        .upgrade]) ∧
    ¬ AllPassed [helloFrame] (run (step [helloFrame]) {}
      [.send 13, .httpRecv 13, .upgrade, .upgrade, .upgrade, .upgrade]) := by
  constructor
  · intro h
    exact absurd (h ⟨by decide, by decide, by decide, by decide⟩) (by decide)
  · intro h
    exact absurd (h ⟨by decide, by decide, by decide, by decide⟩) (by decide)

end Upgrade

end Ryklys
