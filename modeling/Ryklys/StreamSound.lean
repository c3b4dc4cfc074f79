import Ryklys.FrameSound
import Ryklys.Runs
import Ryklys.WebSocketConnection

/-!
# Decoding a stream of frames

The frame loop is the reader that decodes until its buffer holds no whole
frame, as long as the callbacks return (`readable_simulates`). With client
frames self-delimiting it therefore dispatches exactly the complete frames of
the stream, however that is cut (`frames_decoded`).
-/

namespace Ryklys

open Runs SelfDelimiting

/-! ## The frame loop -/

/-- The frames dispatched out of those decoded: up to the first whose callback
throws. -/
def attended (onMessage onClose : Bool) : List Reaction → List WebSocketFrame → List WebSocketFrame
  | _, [] => []
  | reactions, frame :: frames =>
    frame ::
      if (reacts onMessage onClose reactions frame).2 then []
      else attended onMessage onClose (reacts onMessage onClose reactions frame).1 frames

structure DispatchesAll (c c' : WebSocketConnection) (frames : List WebSocketFrame) : Prop where
  dispatched : c'.dispatched = c.dispatched ++ frames
  closeCalls : c'.closeCalls.length = c.closeCalls.length + if c.onClose then frames.countP isClose else 0
  onMessage : c'.onMessage = c.onMessage
  onClose : c'.onClose = c.onClose
  closed : c'.state = .CLOSED ↔ c.state = .CLOSED ∨ 0 < frames.countP isClose

theorem DispatchesAll.nil (c : WebSocketConnection) : DispatchesAll c c [] :=
  ⟨by simp, by simp, rfl, rfl, by simp⟩

theorem DispatchesAll.cons {c c' c'' : WebSocketConnection} {frame : WebSocketFrame} {frames : List WebSocketFrame}
    (h : Dispatches c c' frame) (h' : DispatchesAll c' c'' frames) : DispatchesAll c c'' (frame :: frames) := by
  refine ⟨by simp [h'.dispatched, h.dispatched], ?_, h'.onMessage.trans h.onMessage, h'.onClose.trans h.onClose, ?_⟩
  · rw [h'.closeCalls, h.closeCalls, h.onClose, List.countP_cons]
    cases c.onClose <;> cases isClose frame <;> simp [Nat.add_comm, Nat.add_left_comm]
  · rw [h'.closed, h.closed, List.countP_cons]
    cases isClose frame <;> simp

theorem armIfQueued_spec (c : WebSocketConnection) : SendsOnly c c.armIfQueued := by
  unfold WebSocketConnection.armIfQueued
  split
  · exact .refl c
  · exact ⟨rfl, rfl, rfl, rfl, rfl, Iff.rfl⟩

theorem DispatchesAll.of_sendsOnly {c c' : WebSocketConnection} (h : SendsOnly c c') : DispatchesAll c c' [] :=
  ⟨by simp [h.dispatched], by simp [h.closeCalls], h.onMessage, h.onClose, by simp [h.closed]⟩

theorem frameLoop_cases (fuel : Nat) (c : WebSocketConnection) (reactions : List Reaction) :
    (frameDec c.readBuffer = none ∧
      (c.frameLoop (fuel + 1) reactions = (c.armIfQueued, none) ∨
        ∃ e, WebSocketFrame.parse c.readBuffer = .error e ∧ c.frameLoop (fuel + 1) reactions = (c, some e))) ∨
    ∃ frame consumed, frameDec c.readBuffer = some (frame, consumed) ∧
      c.frameLoop (fuel + 1) reactions =
        if (reacts c.onMessage c.onClose reactions frame).2 then ((c.dispatch reactions frame).1, some .other)
        else WebSocketConnection.frameLoop fuel
          { (c.dispatch reactions frame).1 with
            readBuffer := (c.dispatch reactions frame).1.readBuffer.drop consumed }
          (reacts c.onMessage c.onClose reactions frame).1 := by
  simp only [← dispatch_reacts]
  rw [WebSocketConnection.frameLoop, frameDec]
  by_cases hnil : c.readBuffer = []
  · rw [if_pos hnil, hnil]
    exact Or.inl ⟨rfl, Or.inl rfl⟩
  rw [if_neg hnil]
  cases WebSocketFrame.parse c.readBuffer with
  | error e => exact Or.inl ⟨rfl, Or.inr ⟨e, rfl, rfl⟩⟩
  | ok r =>
    cases r with
    | none => exact Or.inl ⟨rfl, Or.inl rfl⟩
    | some p => exact Or.inr ⟨p.1, p.2, rfl, rfl⟩

/-- **The frame loop.** It dispatches the decoded frames up to the first whose
callback throws. -/
theorem frameLoop_spec : ∀ (fuel : Nat) (c : WebSocketConnection) (reactions : List Reaction),
    DispatchesAll c (c.frameLoop fuel reactions).1
      (attended c.onMessage c.onClose reactions (extract frameDec fuel c.readBuffer).1)
  | 0, c, _ => .of_sendsOnly (armIfQueued_spec c)
  | fuel + 1, c, reactions => by
    rcases frameLoop_cases fuel c reactions with ⟨hd, he | ⟨e, -, he⟩⟩ | ⟨frame, consumed, hd, he⟩
    · rw [extract, hd, he]
      exact .of_sendsOnly (armIfQueued_spec c)
    · rw [extract, hd, he]
      exact .nil c
    · have h := dispatch_spec c reactions frame
      rw [extract, hd, he]
      simp only [attended]
      split
      · exact .cons h (.nil _)
      · have ih := frameLoop_spec fuel
          { (c.dispatch reactions frame).1 with
            readBuffer := (c.dispatch reactions frame).1.readBuffer.drop consumed }
          (reacts c.onMessage c.onClose reactions frame).1
        rw [h.readBuffer, show _ = _ from h.onMessage, show _ = _ from h.onClose] at ih
        rw [h.readBuffer]
        exact .cons h ⟨ih.dispatched, ih.closeCalls, ih.onMessage, ih.onClose, ih.closed⟩

def Returns (reactions : List Reaction) : Prop := ∀ r ∈ reactions, r.throws = false

theorem Returns.reacts {reactions : List Reaction} (h : Returns reactions) (onMessage onClose : Bool)
    (frame : WebSocketFrame) :
    Returns (reacts onMessage onClose reactions frame).1 ∧ (reacts onMessage onClose reactions frame).2 = false := by
  unfold Ryklys.reacts
  split
  · refine ⟨fun r hr => h r (List.mem_of_mem_tail hr), ?_⟩
    cases reactions with
    | nil => rfl
    | cons r rs => exact h r List.mem_cons_self
  · exact ⟨h, rfl⟩

theorem attended_returns (onMessage onClose : Bool) : ∀ (frames : List WebSocketFrame) {reactions : List Reaction},
    Returns reactions → attended onMessage onClose reactions frames = frames
  | [], _, _ => by cases ‹List Reaction› <;> rfl
  | frame :: frames, reactions, h => by
    obtain ⟨h1, h2⟩ := h.reacts onMessage onClose frame
    rw [attended, h2, if_neg (by simp), attended_returns onMessage onClose frames h1]

/-- With returning callbacks the loop leaves the undecoded bytes, and an
exception can only come from them. -/
theorem frameLoop_returns : ∀ (fuel : Nat) (c : WebSocketConnection) {reactions : List Reaction}, Returns reactions →
    (c.frameLoop fuel reactions).1.readBuffer = (extract frameDec fuel c.readBuffer).2 ∧
      ∀ e, (c.frameLoop fuel reactions).2 = some e →
        ∃ e', WebSocketFrame.parse (extract frameDec fuel c.readBuffer).2 = .error e'
  | 0, c, _, _ => ⟨(armIfQueued_spec c).readBuffer, fun _ he => by cases he⟩
  | fuel + 1, c, reactions, h => by
    rcases frameLoop_cases fuel c reactions with ⟨hd, he | ⟨e, hp, he⟩⟩ | ⟨frame, consumed, hd, he⟩
    · rw [extract, hd, he]
      exact ⟨(armIfQueued_spec c).readBuffer, fun _ hx => by cases hx⟩
    · rw [extract, hd, he]
      exact ⟨rfl, fun _ _ => ⟨e, hp⟩⟩
    · obtain ⟨h1, h2⟩ := h.reacts c.onMessage c.onClose frame
      rw [extract, hd, he, h2, if_neg (by simp)]
      have ih := frameLoop_returns fuel
        { (c.dispatch reactions frame).1 with
          readBuffer := (c.dispatch reactions frame).1.readBuffer.drop consumed } h1
      rw [(dispatch_spec c reactions frame).readBuffer] at ih
      rwa [(dispatch_spec c reactions frame).readBuffer]

/-! ## Runs -/

def WsOp.chunk : WsOp → Bytes
  | .readable d _ => d.chunks.flatten
  | .writable _ => []
  | .call _ => []

def WsOp.Undisturbed : WsOp → Prop
  | .readable d reactions => d.stop = .eagain ∧ Returns reactions
  | _ => True

def wsReceived (ops : List WsOp) : Bytes := ops.flatMap WsOp.chunk

def Reads (c c' : WebSocketConnection) (s : List WebSocketFrame × Bytes) : Prop :=
  c'.dispatched = c.dispatched ++ s.1 ∧ c'.readBuffer = s.2

theorem onWritable_reads (results : List SendResult) (c : WebSocketConnection) :
    (c.onWritable results).dispatched = c.dispatched ∧ (c.onWritable results).readBuffer = c.readBuffer := by
  obtain ⟨p, hp, he⟩ := onWritable_spec results c
  rw [he]
  split <;> exact ⟨hp.dispatched, hp.readBuffer⟩

/-- **Refinement.** A read that is not disturbed is one step of the reader that
decodes everything it can. -/
theorem readable_reads {c c' : WebSocketConnection} {s : List WebSocketFrame × Bytes} (h : Reads c c' s)
    {d : Drain} {reactions : List Reaction} (hd : d.stop = .eagain) (hr : Returns reactions) :
    Reads c (c'.onReadable d reactions).1 (feed frameDec id s d.chunks.flatten) := by
  obtain ⟨h1, h2⟩ := h
  simp only [WebSocketConnection.onReadable, hd, drain_eq, h2, feed, id]
  have hs := frameLoop_spec (s.2 ++ d.chunks.flatten).length { c' with readBuffer := s.2 ++ d.chunks.flatten } reactions
  rw [attended_returns _ _ _ hr] at hs
  refine ⟨by rw [hs.dispatched, ← List.append_assoc, ← h1], ?_⟩
  exact (frameLoop_returns _ { c' with readBuffer := s.2 ++ d.chunks.flatten } hr).1

section
variable {c : WebSocketConnection} (hempty : c.readBuffer = []) {fs : List ClientFrame}
include hempty

theorem run_reads : ∀ {ops : List WsOp}, (∀ o ∈ ops, o.Undisturbed) → wsReceived ops <+: frameCodec.stream fs →
    Reads c (run WebSocketConnection.step c ops)
      (frameCodec.after fs (frameCodec.completed fs (wsReceived ops).length) (wsReceived ops)) := by
  intro ops
  induction ops using List.reverseRecOn with
  | nil =>
    intro _ _
    rw [show wsReceived [] = [] from rfl, List.length_nil, Codec.after_start]
    exact ⟨by simp, hempty⟩
  | append_singleton ops o ih =>
    intro hu hs
    have happ : wsReceived (ops ++ [o]) = wsReceived ops ++ o.chunk := by simp [wsReceived]
    rw [happ] at hs ⊢
    have h := ih (fun o ho => hu o (List.mem_append_left _ ho)) ((List.prefix_append _ _).trans hs)
    rw [run_snoc]
    cases o with
    | readable d reactions =>
      obtain ⟨hd, hr⟩ := hu _ (List.mem_append_right _ (List.mem_singleton_self _))
      rw [← frameCodec.feed_complete hs]
      exact readable_reads h hd hr
    | writable results =>
      rw [WsOp.chunk, List.append_nil]
      obtain ⟨h1, h2⟩ := onWritable_reads results (run WebSocketConnection.step c ops)
      exact ⟨h1.trans h.1, h2.trans h.2⟩
    | call w =>
      rw [WsOp.chunk, List.append_nil]
      have hw := SendsOnly.call (run WebSocketConnection.step c ops) w
      exact ⟨hw.dispatched.trans h.1, hw.readBuffer.trans h.2⟩

end

theorem parse_rest (fs : List ClientFrame) (m : Nat) :
    ∃ r, WebSocketFrame.parse ((frameCodec.stream fs).take m) = .ok r := by
  cases fs with
  | nil => exact ⟨none, by simp [WebSocketFrame.parse]⟩
  | cons f fs =>
    rw [Codec.stream_cons, List.take_append]
    rcases Nat.lt_or_ge m (frameCodec.enc f).length with hlt | hge
    · rw [show m - (frameCodec.enc f).length = 0 by omega, List.take_zero, List.append_nil]
      exact ⟨none, parse_short f hlt⟩
    · rw [List.take_of_length_le hge]
      exact ⟨_, parse_encode f _⟩

/-- **Frame stream.** After every step of an undisturbed run exactly the frames
complete so far were dispatched and the rest is in the buffer, no exception
leaves a read, and at the end all frames were dispatched. -/
theorem frames_decoded {c : WebSocketConnection} (hempty : c.readBuffer = []) {fs : List ClientFrame}
    {ops : List WsOp} (hops : ∀ o ∈ ops, o.Undisturbed) (hcut : wsReceived ops = (fs.map ClientFrame.encode).flatten) :
    (∀ pre, pre <+: ops →
      (run WebSocketConnection.step c pre).dispatched = c.dispatched ++
        (fs.take (frameCodec.completed fs (wsReceived pre).length)).map ClientFrame.frame ∧
      (run WebSocketConnection.step c pre).readBuffer = (wsReceived pre).drop
        ((fs.take (frameCodec.completed fs (wsReceived pre).length)).map ClientFrame.encode).flatten.length) ∧
    (∀ pre d reactions, pre ++ [.readable d reactions] <+: ops →
      ((run WebSocketConnection.step c pre).onReadable d reactions).2 = none) ∧
    (run WebSocketConnection.step c ops).dispatched = c.dispatched ++ fs.map ClientFrame.frame ∧
    (run WebSocketConnection.step c ops).readBuffer = [] := by
  have hs : wsReceived ops <+: frameCodec.stream fs := by rw [hcut]; exact List.prefix_refl _
  have hpre : ∀ {pre}, pre <+: ops → wsReceived pre <+: frameCodec.stream fs := by
    intro pre ⟨post, he⟩
    subst he
    rw [wsReceived, List.flatMap_append] at hs
    exact (List.prefix_append _ _).trans hs
  have hreads : ∀ {pre}, pre <+: ops → Reads c (run WebSocketConnection.step c pre)
      (frameCodec.after fs (frameCodec.completed fs (wsReceived pre).length) (wsReceived pre)) := fun hp =>
    run_reads hempty (fun o ho => hops o (hp.subset ho)) (hpre hp)
  refine ⟨fun pre hp => hreads hp, fun pre d reactions hp => ?_, ?_⟩
  · obtain ⟨hd, hr⟩ := hops _ (hp.subset (List.mem_append_right _ (List.mem_singleton_self _)))
    have hafter := hreads hp
    rw [run_snoc] at hafter
    cases hx : ((run WebSocketConnection.step c pre).onReadable d reactions).2 with
    | none => rfl
    | some e =>
      exfalso
      -- only the bytes left over could make `Parse` throw, and they are a cut stream
      have hb := hafter.2
      simp only [WebSocketConnection.step, WebSocketConnection.onReadable, hd] at hx hb
      obtain ⟨hrest, herr⟩ := frameLoop_returns _ { run WebSocketConnection.step c pre with
        readBuffer := drain (run WebSocketConnection.step c pre).readBuffer d.chunks } hr
      obtain ⟨e', he'⟩ := herr e hx
      rw [← hrest, hb, frameCodec.after_snd (hpre hp)] at he'
      obtain ⟨r, hok⟩ := parse_rest (fs.drop (frameCodec.completed fs (wsReceived (pre ++ [.readable d reactions])).length))
        ((wsReceived (pre ++ [.readable d reactions])).length - (frameCodec.stream
          (fs.take (frameCodec.completed fs (wsReceived (pre ++ [.readable d reactions])).length))).length)
      rw [hok] at he'
      cases he'
  · obtain ⟨h1, h2⟩ := hreads (List.prefix_refl ops)
    rw [h1, h2, show wsReceived ops = frameCodec.stream fs from hcut, Codec.completed_stream]
    simp only [Codec.after, List.take_length, List.drop_length]
    exact ⟨rfl, trivial⟩

def helloFrame : ClientFrame where
  fin := true
  opcode := WsOpcode.TEXT
  mask := some ⟨1, 2, 3, 4⟩
  form := .len16
  payload := bytes "hello"
  opcode_lt := by decide
  holds := (by decide : (bytes "hello").length < 2 ^ 16)
  size_lt := by decide

theorem frames_decoded_hello :
    (run WebSocketConnection.step {}
      [.readable ⟨[helloFrame.encode.take 3], .eagain⟩ [],
       .readable ⟨[helloFrame.encode.drop 3], .eagain⟩ []]).dispatched = [helloFrame.frame] :=
  (@frames_decoded {} rfl [helloFrame] _ (by simp [WsOp.Undisturbed, Returns]) (by decide)).2.2.1

end Ryklys
