import Ryklys.Runs
import Ryklys.SerializeSound
import Ryklys.WebSocketConnection

/-!
# Output is lossless and in order

What the socket accepted, followed by what the write queue still holds from
`write_offset_` on, is always the frames of the `QueueFrame` calls so far
(`output_lossless`): whatever the order of `QueueFrame` and `OnWritable`, and
whatever `send` takes at a time.
-/

namespace Ryklys

open Runs

inductive OutputOp where
  | queueFrame (frame : WebSocketFrame)
  | writable (results : List SendResult)

def OutputOp.frame? : OutputOp → Option WebSocketFrame
  | queueFrame frame => some frame
  | writable _ => none

/-- The frames that a run queues, in order. -/
def framesOf (ops : List OutputOp) : List WebSocketFrame := ops.filterMap OutputOp.frame?

namespace WebSocketConnection

def outputStep (c : WebSocketConnection) : OutputOp → WebSocketConnection
  | .queueFrame frame => c.queueFrame frame
  | .writable results => c.onWritable results

/-- The front buffer from `write_offset_` on, and the buffers behind it. -/
def unsent (c : WebSocketConnection) : Bytes :=
  match c.writeQueue with
  | [] => []
  | data :: queue => data.drop c.writeOffset ++ queue.flatten

structure Lossless (frames : List WebSocketFrame) (c : WebSocketConnection) : Prop where
  wire : c.wire ++ c.unsent = (frames.map WebSocketFrame.serialize).flatten
  offset : if c.writeQueue = [] then c.writeOffset = 0 else ∀ data ∈ c.writeQueue.head?, c.writeOffset < data.length

structure OutputInv (c : WebSocketConnection) : Prop where
  wire : c.wire ++ c.unsent = (c.queued.map WebSocketFrame.serialize).flatten
  offset : ∀ data ∈ c.writeQueue.head?, c.writeOffset < data.length
  drained : c.writeQueue = [] → c.writeOffset = 0
  nonempty : ∀ data ∈ c.writeQueue, data ≠ []

theorem OutputInv.lossless {c : WebSocketConnection} (h : OutputInv c) : Lossless c.queued c := by
  refine ⟨h.wire, ?_⟩
  by_cases hq : c.writeQueue = []
  · rw [if_pos hq]
    exact h.drained hq
  · rw [if_neg hq]
    exact h.offset

theorem outputInv_init : OutputInv {} := by
  refine ⟨rfl, ?_, fun _ => rfl, ?_⟩
  · intro data hd
    cases hd
  · intro data hd
    cases hd

/-! ## One operation -/

theorem unsent_queueFrame (c : WebSocketConnection) (frame : WebSocketFrame)
    (hd : c.writeQueue = [] → c.writeOffset = 0) :
    (c.queueFrame frame).unsent = c.unsent ++ frame.serialize := by
  unfold unsent queueFrame
  cases hq : c.writeQueue with
  | nil => simp [hd hq]
  | cons data queue => simp

theorem outputInv_queueFrame {c : WebSocketConnection} (h : OutputInv c) (frame : WebSocketFrame) :
    OutputInv (c.queueFrame frame) := by
  refine ⟨?_, ?_, ?_, ?_⟩
  · rw [unsent_queueFrame c frame h.drained]
    change c.wire ++ (c.unsent ++ frame.serialize) = ((c.queued ++ [frame]).map WebSocketFrame.serialize).flatten
    rw [← List.append_assoc, h.wire, List.map_append, List.flatten_append]
    simp
  · intro data hd
    have ho := h.offset
    unfold queueFrame at hd ⊢
    cases hq : c.writeQueue with
    | nil =>
      simp only [hq, List.nil_append, List.head?_cons, Option.mem_some_iff] at hd
      rw [h.drained hq, ← hd]
      exact List.length_pos_of_ne_nil frame.serialize_ne_nil
    | cons front queue =>
      simp only [hq, List.cons_append, List.head?_cons, Option.mem_some_iff] at hd
      exact ho data (by rw [hq, ← hd]; rfl)
  · intro hq
    exact absurd hq (by simp [queueFrame])
  · intro data hd
    rcases List.mem_append.mp hd with hd | hd
    · exact h.nonempty data hd
    · rw [List.mem_singleton.mp hd]
      exact frame.serialize_ne_nil

theorem outputInv_accept {c : WebSocketConnection} (h : OutputInv c) {data : Bytes} {queue : List Bytes}
    (hq : c.writeQueue = data :: queue) (n : Nat) : OutputInv (c.accept data queue n) := by
  have hlt : c.writeOffset < data.length := h.offset data (by rw [hq]; rfl)
  have hnext : ∀ front ∈ queue, front ≠ [] := by
    intro front hf
    apply h.nonempty front
    rw [hq]
    exact List.mem_cons_of_mem _ hf
  have hsent : 1 ≤ acceptCount n (data.length - c.writeOffset) ∧
      acceptCount n (data.length - c.writeOffset) ≤ data.length - c.writeOffset := by
    unfold acceptCount
    omega
  have hwire := h.wire
  rw [unsent, hq] at hwire
  simp only at hwire
  unfold accept
  simp only [List.length_drop]
  by_cases hl : data.length ≤ c.writeOffset + acceptCount n (data.length - c.writeOffset)
  · rw [if_pos hl]
    -- all of the front buffer is out, so the next one starts at its first byte
    have hall : (data.drop c.writeOffset).take (acceptCount n (data.length - c.writeOffset)) =
        data.drop c.writeOffset := List.take_of_length_le (by rw [List.length_drop]; omega)
    refine ⟨?_, ?_, fun _ => rfl, hnext⟩
    · rw [hall, ← hwire, List.append_assoc]
      congr 2
      unfold unsent
      cases queue <;> rfl
    · intro front hf
      exact List.length_pos_of_ne_nil (hnext front (List.mem_of_mem_head? hf))
  · rw [if_neg hl]
    refine ⟨?_, ?_, ?_, fun front hf => h.nonempty front hf⟩
    · rw [← hwire, unsent]
      simp only [hq]
      rw [List.append_assoc, ← List.append_assoc ((data.drop _).take _), ← List.drop_drop, List.take_append_drop]
    · intro front hf
      simp only [hq, List.head?_cons, Option.mem_some_iff] at hf
      rw [← hf]
      exact Nat.lt_of_not_le hl
    · intro hn
      exact absurd (hq.symm.trans hn) (by simp)

theorem outputInv_onWritable (results : List SendResult) : ∀ {c : WebSocketConnection}, OutputInv c →
    OutputInv (c.onWritable results) := by
  induction results with
  | nil =>
    intro c h
    unfold onWritable
    split
    · exact ⟨h.wire, h.offset, h.drained, h.nonempty⟩
    · exact h
  | cons result results ih =>
    intro c h
    unfold onWritable
    split
    · exact ⟨h.wire, h.offset, h.drained, h.nonempty⟩
    · rename_i data queue hq
      cases result with
      | accepted n => exact ih (outputInv_accept h hq n)
      | eagain => exact h
      | error => exact ⟨h.wire, h.offset, h.drained, h.nonempty⟩

theorem outputInv_step {c : WebSocketConnection} (op : OutputOp) (h : OutputInv c) : OutputInv (c.outputStep op) := by
  cases op with
  | queueFrame frame => exact outputInv_queueFrame h frame
  | writable results => exact outputInv_onWritable results h

/-! ## What was queued -/

theorem queued_accept (c : WebSocketConnection) (data : Bytes) (queue : List Bytes) (n : Nat) :
    (c.accept data queue n).queued = c.queued := by
  unfold accept
  dsimp only
  split <;> rfl

theorem queued_onWritable (results : List SendResult) : ∀ c : WebSocketConnection,
    (c.onWritable results).queued = c.queued := by
  induction results with
  | nil =>
    intro c
    unfold onWritable
    split <;> rfl
  | cons result results ih =>
    intro c
    unfold onWritable
    split
    · rfl
    · cases result with
      | accepted n => exact (ih _).trans (queued_accept c _ _ n)
      | eagain => rfl
      | error => rfl

theorem queued_run (ops : List OutputOp) : (run outputStep {} ops).queued = framesOf ops := by
  induction ops using List.reverseRecOn with
  | nil => rfl
  | append_singleton ops op ih =>
    rw [run_snoc, framesOf, List.filterMap_append, ← framesOf, ← ih]
    cases op with
    | queueFrame frame => rfl
    | writable results => exact (queued_onWritable results _).trans (List.append_nil _).symm

/-! ## Every run -/

/-- **Lossless output.** It holds after every operation and, within a call of
`OnWritable`, after every `send`. -/
theorem output_lossless (ops : List OutputOp) (results : List SendResult) :
    (∀ pre, pre <+: ops → Lossless (framesOf pre) (run outputStep {} pre)) ∧
      ∀ pre, pre <+: results → Lossless (framesOf ops) ((run outputStep {} ops).onWritable pre) := by
  have hrun : ∀ ops, OutputInv (run outputStep {} ops) := fun ops =>
    invariant outputStep (J := OutputInv) (fun _ op => outputInv_step op) ops outputInv_init
  constructor
  · intro pre _
    rw [← queued_run]
    exact (hrun pre).lossless
  · intro pre _
    rw [← queued_run, ← queued_onWritable pre]
    exact (outputInv_onWritable pre (hrun ops)).lossless

end WebSocketConnection

end Ryklys
