import Ryklys.ChatRelay
import Ryklys.OutputSound
import Ryklys.Transducer
import Ryklys.WsRoutes

/-!
# What a session answers

A session whose callbacks send on their own connection only is a machine that
puts out frames on the frames it reads: its state is whether the connection is
open (`dispatch_emits`). So what is queued after a run is what the machine puts
out on the frames that are complete (`session_emits`), and what the peer decodes
is the part of it that was sent (`wire_decodes`).
-/

namespace Ryklys

open Runs SelfDelimiting

def WebSocketConnection.isOpen (c : WebSocketConnection) : Bool := decide (c.state = .OPEN)

theorem isOpen_iff {c : WebSocketConnection} : c.isOpen = true ↔ c.state = .OPEN := decide_eq_true_iff

/-- The frames queued from `c` to `c'` are those `f` puts out on the inputs. -/
abbrev PutsOut {ι : Type} (f : Bool → ι → List WebSocketFrame × Bool) (c : WebSocketConnection) (ops : List ι)
    (c' : WebSocketConnection) : Prop :=
  Emits WebSocketConnection.queued WebSocketConnection.isOpen f c ops c'

/-! ## Calls -/

def sent (isOpen : Bool) : WsCall → List WebSocketFrame × Bool
  | .close code reason => (if isOpen then [Threads.closeFrame code reason] else [], false)
  | call => ([frameOf call], isOpen)

theorem close_queues (c : WebSocketConnection) (code : UInt16) (reason : Bytes) :
    PutsOut sent c [.close code reason] (c.close code reason) := by
  unfold WebSocketConnection.close
  by_cases h : c.state = .OPEN
  · rw [if_neg (not_not.mpr h)]
    refine emits_one ?_ rfl
    rw [sent, if_pos (isOpen_iff.mpr h)]
    rfl
  · rw [if_pos h]
    refine emits_one ?_ (decide_eq_false h)
    rw [sent, if_neg (fun ho => h (isOpen_iff.mp ho)), List.append_nil]

theorem call_queues (c : WebSocketConnection) (w : WsCall) : PutsOut sent c [w] (c.call w) := by
  cases w with
  | close code reason => exact close_queues c code reason
  | sendText message => exact emits_one rfl rfl
  | sendBinary data => exact emits_one rfl rfl
  | sendPing data => exact emits_one rfl rfl

theorem calls_queues (ws : List WsCall) (c : WebSocketConnection) :
    PutsOut sent c ws (ws.foldl WebSocketConnection.call c) := run_emits call_queues ws c

/-! ## One frame -/

namespace WsSetup

variable (setup : WsSetup)

/-- The frames that answer a frame. -/
def answer (isOpen : Bool) (frame : WebSocketFrame) : List WebSocketFrame × Bool :=
  if isMessage frame then emit sent isOpen (setup.reaction frame).calls
  else if frame.opcode = WsOpcode.PING then ([{ opcode := WsOpcode.PONG, payload := frame.payload }], isOpen)
  else if isClose frame then
    let (code, reason) := WebSocketConnection.closeReason frame.payload
    ((sent isOpen (.close code reason)).1 ++ (emit sent false (setup.reaction frame).calls).1, false)
  else ([], isOpen)

theorem emit_sent_closed : ∀ ws : List WsCall, (emit sent false ws).2 = false
  | [] => rfl
  | w :: ws => by
    have hw : (sent false w).2 = false := by cases w <;> rfl
    rw [emit, hw]
    exact emit_sent_closed ws

variable {setup}

theorem reactions_cons (frame : WebSocketFrame) (frames : List WebSocketFrame) :
    setup.reactions (frame :: frames) =
      if callsBack setup.onMessage.isSome setup.onClose.isSome frame then
        setup.reaction frame :: setup.reactions frames
      else setup.reactions frames := by
  unfold reactions
  rw [List.filter_cons]
  split <;> rfl

theorem returns_reactions (frames : List WebSocketFrame) : Returns (setup.reactions frames) := by
  intro r hr
  obtain ⟨frame, -, rfl⟩ := List.mem_map.mp hr
  rfl

theorem reacts_reactions (frame : WebSocketFrame) (frames : List WebSocketFrame) :
    reacts setup.onMessage.isSome setup.onClose.isSome (setup.reactions (frame :: frames)) frame =
      (setup.reactions frames, false) := by
  rw [reactions_cons, reacts]
  split
  · rfl
  · rfl

/-- The callbacks of the connection are the setup's. -/
structure On (setup : WsSetup) (c : WebSocketConnection) : Prop where
  onMessage : c.onMessage = setup.onMessage.isSome
  onClose : c.onClose = setup.onClose.isSome

theorem On.congr {c c' : WebSocketConnection} (h : setup.On c) (hm : c'.onMessage = c.onMessage)
    (hc : c'.onClose = c.onClose) : setup.On c' := ⟨hm.trans h.onMessage, hc.trans h.onClose⟩

theorem callback_queues (c : WebSocketConnection) (reactions : List Reaction) (reaction : Reaction) :
    PutsOut sent c reaction.calls (c.callback (reaction :: reactions)).1 := calls_queues reaction.calls c

variable {c : WebSocketConnection} (hc : setup.On c) (frame : WebSocketFrame) (frames : List WebSocketFrame)
include hc

theorem message_queues (h : isMessage frame = true) :
    PutsOut setup.answer c [frame] (c.dispatch (setup.reactions (frame :: frames)) frame).1 := by
  have hans : ∀ b, setup.answer b frame = emit sent b (setup.reaction frame).calls := fun b => if_pos h
  rw [dispatch_message c _ h]
  by_cases ho : c.onMessage = true
  · have hcalls : callsBack setup.onMessage.isSome setup.onClose.isSome frame = true := by
      rw [callsBack, h, ← hc.onMessage, ho]
      rfl
    have hq := callback_queues { c with
      dispatched := c.dispatched ++ [frame]
      messageCalls := c.messageCalls ++ [(frame.payload, frame.opcode)] } (setup.reactions frames)
      (setup.reaction frame)
    rw [if_pos ho, reactions_cons, if_pos hcalls]
    refine emits_one ?_ ?_
    · rw [hans]
      exact hq.1
    · rw [hans]
      exact hq.2
  · have hnone : setup.onMessage = none := by
      rw [hc.onMessage, Bool.not_eq_true, Option.isSome_eq_false_iff, Option.isNone_iff_eq_none] at ho
      exact ho
    have hnil : (setup.reaction frame).calls = [] := by
      rw [reaction, if_pos h, hnone]
      rfl
    rw [if_neg ho]
    refine emits_one ?_ ?_
    · rw [hans, hnil, emit_nil, List.append_nil]
    · rw [hans, hnil, emit_nil]
      rfl

theorem close_frame_queues (h : isClose frame = true) (hm : isMessage frame = false) :
    PutsOut setup.answer c [frame] (c.dispatch (setup.reactions (frame :: frames)) frame).1 := by
  have hping : ¬ frame.opcode = WsOpcode.PING := by
    rw [(isClose_iff frame).mp h]
    decide
  obtain ⟨⟨code, reason⟩, hr⟩ : ∃ r, WebSocketConnection.closeReason frame.payload = r := ⟨_, rfl⟩
  have hans : ∀ b, setup.answer b frame =
      ((sent b (.close code reason)).1 ++ (emit sent false (setup.reaction frame).calls).1, false) := by
    intro b
    rw [answer, hm, if_neg Bool.false_ne_true, if_neg hping, if_pos h, hr]
  -- the echo first, then what `on_close_` sends on a connection that is closed
  have hecho : ({ c with dispatched := c.dispatched ++ [frame] }.peerClose code reason).queued =
      c.queued ++ (sent c.isOpen (.close code reason)).1 := by
    have hq := close_queues { c with dispatched := c.dispatched ++ [frame] } code reason
    unfold WebSocketConnection.peerClose
    by_cases ho : c.state = .OPEN
    · rw [if_pos ho, hq.1, emit, emit_nil, List.append_nil]
      rfl
    · rw [if_neg ho, sent, if_neg (fun h => ho (isOpen_iff.mp h)), List.append_nil]
  have hclosed : ({ c with dispatched := c.dispatched ++ [frame] }.peerClose code reason).isOpen = false := by
    rw [WebSocketConnection.isOpen, (peerClose_spec _ code reason).2.2.2.2.2]
    rfl
  have honclose := (peerClose_spec { c with dispatched := c.dispatched ++ [frame] } code reason).2.2.2.2.1
  rw [dispatch_close c _ h, hr]
  dsimp only at honclose ⊢
  generalize { c with dispatched := c.dispatched ++ [frame] }.peerClose code reason = p at hecho hclosed honclose ⊢
  rw [hc.onClose] at honclose
  by_cases ho : p.onClose = true
  · have hcalls : callsBack setup.onMessage.isSome setup.onClose.isSome frame = true := by
      rw [callsBack, h, ← honclose, ho, Bool.true_and, Bool.or_true]
    have hq := callback_queues { p with closeCalls := p.closeCalls ++ [(code, reason)] } (setup.reactions frames)
      (setup.reaction frame)
    have hopen : WebSocketConnection.isOpen { p with closeCalls := p.closeCalls ++ [(code, reason)] } = false := hclosed
    rw [PutsOut, Emits, hopen] at hq
    rw [if_pos ho, reactions_cons, if_pos hcalls]
    refine emits_one ?_ ?_
    · rw [hans, ← List.append_assoc, ← hecho]
      exact hq.1
    · rw [hans]
      exact hq.2.trans (emit_sent_closed _)
  · have hnone : setup.onClose = none := by
      rw [honclose, Bool.not_eq_true, Option.isSome_eq_false_iff, Option.isNone_iff_eq_none] at ho
      exact ho
    have hnil : (setup.reaction frame).calls = [] := by simp [reaction, hm, hr, hnone]
    rw [if_neg ho]
    refine emits_one ?_ ?_
    · rw [hans, hnil, emit_nil, List.append_nil]
      exact hecho
    · rw [hans]
      exact hclosed

/-- **One dispatch.** It queues the answer to the frame. -/
theorem dispatch_emits : PutsOut setup.answer c [frame] (c.dispatch (setup.reactions (frame :: frames)) frame).1 := by
  rcases opcode_cases frame with ⟨hm, -⟩ | ⟨hm, hcl⟩ | ⟨hm, hcl⟩
  · exact message_queues hc frame frames hm
  · exact close_frame_queues hc frame frames hcl hm
  · have hm' : ¬ (frame.opcode = WsOpcode.TEXT ∨ frame.opcode = WsOpcode.BINARY) := by
      rw [← isMessage_iff, hm]
      exact Bool.false_ne_true
    have hcl' : ¬ frame.opcode = WsOpcode.CLOSE := by
      rw [← isClose_iff, hcl]
      exact Bool.false_ne_true
    rw [WebSocketConnection.dispatch, if_neg hm', if_neg hcl']
    by_cases hp : frame.opcode = WsOpcode.PING
    · rw [if_pos hp]
      refine emits_one ?_ ?_
      · simp [answer, hm, hp, WebSocketConnection.queueFrame]
      · simp only [answer, hm, hp, WebSocketConnection.queueFrame, WebSocketConnection.isOpen]
        rfl
    · rw [if_neg hp]
      refine emits_one ?_ ?_
      · simp [answer, hm, hp, hcl]
      · simp [answer, hm, hp, hcl, WebSocketConnection.isOpen]

/-! ## The frame loop -/

theorem On.dispatch (reactions : List Reaction) : setup.On (c.dispatch reactions frame).1 :=
  hc.congr (dispatch_spec c reactions frame).onMessage (dispatch_spec c reactions frame).onClose

end WsSetup

theorem armIfQueued_queued (c : WebSocketConnection) :
    c.armIfQueued.queued = c.queued ∧ c.armIfQueued.isOpen = c.isOpen := by
  unfold WebSocketConnection.armIfQueued
  split
  · exact ⟨rfl, rfl⟩
  · exact ⟨rfl, rfl⟩

/-- **The frame loop.** It queues the answers to the frames it decodes. -/
theorem frameLoop_emits {setup : WsSetup} : ∀ (fuel : Nat) {c : WebSocketConnection}, setup.On c →
    PutsOut setup.answer c (extract frameDec fuel c.readBuffer).1
      (c.frameLoop fuel (setup.reactions (extract frameDec fuel c.readBuffer).1)).1
  | 0, c, _ => .refl (armIfQueued_queued c).1 (armIfQueued_queued c).2
  | fuel + 1, c, hc => by
    rcases frameLoop_cases fuel c (setup.reactions (extract frameDec (fuel + 1) c.readBuffer).1) with
      ⟨hd, he | ⟨e, -, he⟩⟩ | ⟨frame, consumed, hd, he⟩
    · rw [he, extract, hd]
      exact .refl (armIfQueued_queued c).1 (armIfQueued_queued c).2
    · rw [he, extract, hd]
      exact .refl rfl rfl
    · have hx : (extract frameDec (fuel + 1) c.readBuffer).1 =
          frame :: (extract frameDec fuel (c.readBuffer.drop consumed)).1 := by
        rw [extract, hd]
      rw [hx] at he ⊢
      rw [he, hc.onMessage, hc.onClose, WsSetup.reacts_reactions, if_neg Bool.false_ne_true]
      generalize hfs : (extract frameDec fuel (c.readBuffer.drop consumed)).1 = frames
      have hstep := WsSetup.dispatch_emits hc frame frames
      have hbuf := (dispatch_spec c (setup.reactions (frame :: frames)) frame).readBuffer
      have hon := hc.dispatch frame (setup.reactions (frame :: frames))
      generalize (c.dispatch (setup.reactions (frame :: frames)) frame).1 = c' at hstep hbuf hon ⊢
      have ih := frameLoop_emits fuel (c := { c' with readBuffer := c'.readBuffer.drop consumed })
        ⟨hon.onMessage, hon.onClose⟩
      have hfs' : (extract frameDec fuel (c'.readBuffer.drop consumed)).1 = frames := by rw [hbuf, hfs]
      rw [hfs'] at ih
      exact hstep.cons ⟨ih.1, ih.2⟩

/-! ## Output -/

namespace WebSocketConnection

variable {c c' : WebSocketConnection}

theorem OutputInv.congr (h : OutputInv c) (hwire : c'.wire = c.wire) (hqueue : c'.writeQueue = c.writeQueue)
    (hoffset : c'.writeOffset = c.writeOffset) (hqueued : c'.queued = c.queued) : OutputInv c' := by
  refine ⟨?_, ?_, ?_, ?_⟩
  · rw [unsent, hwire, hqueue, hoffset, hqueued]
    exact h.wire
  · rw [hqueue, hoffset]
    exact h.offset
  · rw [hqueue, hoffset]
    exact h.drained
  · rw [hqueue]
    exact h.nonempty

theorem OutputInv.close (h : OutputInv c) (code : UInt16) (reason : Bytes) : OutputInv (c.close code reason) := by
  unfold WebSocketConnection.close
  split
  · exact h
  · exact outputInv_queueFrame (c := { c with state := .CLOSING }) (h.congr rfl rfl rfl rfl) _

theorem OutputInv.call (h : OutputInv c) (w : WsCall) : OutputInv (c.call w) := by
  cases w with
  | close code reason => exact h.close code reason
  | _ => exact outputInv_queueFrame h _

theorem OutputInv.calls (h : OutputInv c) (ws : List WsCall) : OutputInv (ws.foldl WebSocketConnection.call c) :=
  invariant WebSocketConnection.call (fun _ w h => h.call w) ws h

theorem OutputInv.callback (h : OutputInv c) (reactions : List Reaction) : OutputInv (c.callback reactions).1 := by
  cases reactions with
  | nil => exact h
  | cons reaction reactions => exact h.calls reaction.calls

theorem OutputInv.dispatch (h : OutputInv c) (reactions : List Reaction) (frame : WebSocketFrame) :
    OutputInv (c.dispatch reactions frame).1 := by
  unfold WebSocketConnection.dispatch
  dsimp only
  split
  · split
    · refine OutputInv.callback ?_ reactions
      exact h.congr rfl rfl rfl rfl
    · exact h.congr rfl rfl rfl rfl
  split
  · refine outputInv_queueFrame ?_ _
    exact h.congr rfl rfl rfl rfl
  split
  · have hpeer : OutputInv ({ c with dispatched := c.dispatched ++ [frame] }.peerClose
        (closeReason frame.payload).1 (closeReason frame.payload).2) := by
      unfold peerClose
      split
      · have hd : OutputInv { c with dispatched := c.dispatched ++ [frame] } := h.congr rfl rfl rfl rfl
        exact (hd.close _ _).congr rfl rfl rfl rfl
      · exact h.congr rfl rfl rfl rfl
    split
    · refine OutputInv.callback ?_ reactions
      exact hpeer.congr rfl rfl rfl rfl
    · exact hpeer
  · exact h.congr rfl rfl rfl rfl

theorem OutputInv.armIfQueued (h : OutputInv c) : OutputInv c.armIfQueued := by
  unfold WebSocketConnection.armIfQueued
  split
  · exact h
  · exact h.congr rfl rfl rfl rfl

theorem OutputInv.frameLoop : ∀ (fuel : Nat) {c : WebSocketConnection} (reactions : List Reaction), OutputInv c →
    OutputInv (c.frameLoop fuel reactions).1
  | 0, _, _, h => h.armIfQueued
  | fuel + 1, c, reactions, h => by
    rcases frameLoop_cases fuel c reactions with ⟨-, he | ⟨e, -, he⟩⟩ | ⟨frame, consumed, -, he⟩
    · rw [he]
      exact h.armIfQueued
    · rw [he]
      exact h
    · rw [he]
      split
      · exact h.dispatch reactions frame
      · exact OutputInv.frameLoop fuel _ ((h.dispatch reactions frame).congr rfl rfl rfl rfl)

theorem OutputInv.onReadable (h : OutputInv c) (d : Drain) (reactions : List Reaction) :
    OutputInv (c.onReadable d reactions).1 := by
  unfold WebSocketConnection.onReadable
  dsimp only
  split
  · exact h.congr rfl rfl rfl rfl
  · exact h.congr rfl rfl rfl rfl
  · exact OutputInv.frameLoop _ _ (h.congr rfl rfl rfl rfl)

/-- A frame that `Parse` gives back as it is. -/
structure Plain (frame : WebSocketFrame) : Prop where
  serializable : Serializable frame
  same : unmaskedFrame frame = frame

theorem plain_frame {opcode : WsOpcode} (ho : opcode < 16) {payload : Bytes} (hp : payload.length < 2 ^ 63) :
    Plain { opcode, payload } := ⟨⟨ho, rfl, hp⟩, rfl⟩

/-- **What the peer decodes.** From the bytes sent so far it decodes a part of
what was queued, and all of it once nothing waits. -/
theorem OutputInv.wire_decodes (h : OutputInv c) (hplain : ∀ frame ∈ c.queued, Plain frame) :
    bufferedFrames c.wire <+: c.queued ∧ (c.writeQueue = [] → bufferedFrames c.wire = c.queued) := by
  obtain ⟨gs, hgs⟩ : ∃ gs : List { f // Serializable f }, gs.map Subtype.val = c.queued := by
    refine ⟨c.queued.attach.map fun g => ⟨g.1, (hplain g.1 g.2).serializable⟩, ?_⟩
    rw [List.map_map]
    exact List.attach_map_subtype_val c.queued
  have hs : serverCodec.stream gs = c.wire ++ c.unsent := by
    rw [h.wire, ← hgs, List.map_map]
    rfl
  have ho : gs.map serverCodec.out = c.queued := by
    rw [← hgs]
    refine List.map_congr_left fun g hg => (hplain g.val ?_).same
    rw [← hgs]
    exact List.mem_map_of_mem hg
  have hdec : bufferedFrames c.wire = (gs.take (serverCodec.completed gs c.wire.length)).map serverCodec.out := by
    have hle := serverCodec.completed_le gs c.wire.length
    have hx := serverCodec.extract_stream c.wire.length gs c.wire.length
    rw [hs, List.take_left, Nat.min_eq_right hle] at hx
    exact congrArg Prod.fst hx
  constructor
  · rw [hdec, ← ho, List.map_take]
    exact List.take_prefix _ _
  · intro hq
    have hw : c.wire.length = (serverCodec.stream gs).length := by
      rw [hs, unsent, hq]
      simp
    rw [hdec, hw, Codec.completed_stream, List.take_length, ho]

end WebSocketConnection

end Ryklys
