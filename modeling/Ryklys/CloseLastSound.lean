import Ryklys.WebSocketThreads

/-!
# CLOSE is the last frame only on an open connection

A CLOSE is queued at most once, by whichever `Close` finds the connection
OPEN. The other senders and the PONG do not look at the state, so a frame can
follow the CLOSE (`close_not_last`); none does in a run that queues frames of
other kinds only while the connection is OPEN (`close_last_of_open`).
-/

namespace Ryklys

open Runs

namespace Threads

/-- At most one CLOSE, and nothing behind it. -/
def CloseLast (s : Threads) : Prop := ∀ a f b, s.conn.queued = a ++ f :: b → isClose f = true → b = []

/-- A frame other than a CLOSE is pushed only while the connection is OPEN. -/
def PushesOpen (s : Threads) (o : ThreadOp) : Prop :=
  ∀ frame ∈ s.pushes o, isClose frame = false → s.conn.state = .OPEN

instance (s : Threads) (o : ThreadOp) : Decidable (s.PushesOpen o) := by unfold PushesOpen; infer_instance

/-- `Close` is past its test of the state and has not pushed its frame. -/
def closing : HolderAt → Bool
  | .closeSet _ _ => true
  | .push frame => isClose frame
  | _ => false

def pushesClose : HolderAt → Bool
  | .push frame => isClose frame
  | _ => false

structure CloseInv (s : Threads) : Prop where
  once : (s.conn.queued.filter isClose).length ≤ 1
  closed : s.conn.state = .OPEN → ∀ f ∈ s.conn.queued, isClose f = false
  closing : ∀ h ∈ s.holder, closing h.pc = true → ∀ f ∈ s.conn.queued, isClose f = false
  pushing : ∀ h ∈ s.holder, pushesClose h.pc = true → s.conn.state ≠ .OPEN

theorem closing_of_pushesClose {pc : HolderAt} (h : pushesClose pc = true) : closing pc = true := by
  cases pc with
  | push frame => exact h
  | _ => cases h

theorem startOf_closing (w : WsCall) : closing (startOf w) = false := by
  cases w <;> rfl

/-! ## The steps that push nothing -/

/-- A step that pushes nothing, does not open the connection and starts no
closing keeps the invariant. -/
theorem closeInv_mono {s s' : Threads} (h : CloseInv s) (hq : s'.conn.queued = s.conn.queued)
    (hst : s'.conn.state = .OPEN → s.conn.state = .OPEN)
    (hh : ∀ h' ∈ s'.holder, closing h'.pc = true → h' ∈ s.holder) : CloseInv s' := by
  refine ⟨?_, ?_, ?_, ?_⟩
  · rw [hq]
    exact h.once
  · intro ho
    rw [hq]
    exact h.closed (hst ho)
  · intro h' hm hc
    rw [hq]
    exact h.closing h' (hh h' hm hc) hc
  · intro h' hm hp ho
    exact h.pushing h' (hh h' hm (closing_of_pushesClose hp)) hp (hst ho)

theorem closeInv_goto {s s' : Threads} {h : Holder} (hs : CloseInv s) (hq : s'.conn.queued = s.conn.queued)
    (hst : s'.conn.state = .OPEN → s.conn.state = .OPEN) (hh : s'.holder = some h) (hpc : closing h.pc = false) :
    CloseInv s' := by
  refine closeInv_mono hs hq hst ?_
  intro h' hm hc
  rw [hh, Option.mem_some_iff] at hm
  rw [← hm, hpc] at hc
  cases hc

theorem closeInv_unlock {s s' : Threads} {h : Holder} (hs : CloseInv s) (hq : s'.conn.queued = s.conn.queued)
    (hst : s'.conn.state = .OPEN → s.conn.state = .OPEN) : CloseInv (s'.unlock h) := by
  refine closeInv_mono hs hq hst ?_
  intro h' hm
  cases hm

/-- The reader never starts a closing itself, it only waits for `write_mu_`. -/
theorem closeInv_reader {s : Threads} {r : Reader} (h : CloseInv s) : CloseInv { s with reader := r } :=
  closeInv_mono h rfl id fun _ hm _ => hm

/-! ## The steps of the holder -/

theorem closeInv_push {s : Threads} {h : Holder} {frame : WebSocketFrame} (hs : CloseInv s) (hh : s.holder = some h)
    (hpc : h.pc = .push frame) :
    CloseInv { s with conn := s.conn.push frame, holder := some { h with pc := .arm } } := by
  have hnone : isClose frame = true → ∀ f ∈ s.conn.queued, isClose f = false := by
    intro hc
    apply hs.closing h hh
    rw [hpc]
    exact hc
  have hmem : ∀ f ∈ s.conn.queued ++ [frame], f ∈ s.conn.queued ∨ f = frame := by
    intro f hf
    rcases List.mem_append.mp hf with hf | hf
    · exact .inl hf
    · exact .inr (List.mem_singleton.mp hf)
  refine ⟨?_, ?_, ?_, ?_⟩
  · change ((s.conn.queued ++ [frame]).filter isClose).length ≤ 1
    rw [List.filter_append]
    by_cases hc : isClose frame = true
    · rw [List.filter_eq_nil_iff.mpr fun f hf => by simp [hnone hc f hf]]
      simp [hc]
    · simpa [hc] using hs.once
  · intro ho f hf
    rcases hmem f hf with hf | rfl
    · exact hs.closed ho f hf
    · by_contra hc
      rw [Bool.not_eq_false] at hc
      exact hs.pushing h hh (by rw [hpc]; exact hc) ho
  · intro h' hm hc
    rw [Option.mem_some_iff] at hm
    rw [← hm] at hc
    cases hc
  · intro h' hm hc
    rw [Option.mem_some_iff] at hm
    rw [← hm] at hc
    cases hc

theorem closeInv_closeTest {s : Threads} {h : Holder} {code : UInt16} {reason : Bytes} (hs : CloseInv s)
    (ho : s.conn.state = .OPEN) : CloseInv { s with holder := some { h with pc := .closeSet code reason } } := by
  refine ⟨hs.once, hs.closed, fun _ _ _ => hs.closed ho, ?_⟩
  intro h' hm hp
  rw [Option.mem_some_iff] at hm
  rw [← hm] at hp
  cases hp

theorem closeInv_closeSet {s : Threads} {h : Holder} {code : UInt16} {reason : Bytes} (hs : CloseInv s)
    (hh : s.holder = some h) (hpc : h.pc = .closeSet code reason) :
    CloseInv { s with
      conn := { s.conn with state := .CLOSING }
      holder := some { h with pc := .push (closeFrame code reason) } } := by
  have hnone : ∀ f ∈ s.conn.queued, isClose f = false := by
    apply hs.closing h hh
    rw [hpc]
    rfl
  refine ⟨hs.once, ?_, fun _ _ _ => hnone, ?_⟩
  · intro ho
    cases ho
  · intro _ _ _ ho
    cases ho

theorem closeInv_holderStep {s : Threads} {h : Holder} (hs : CloseInv s) (hh : s.holder = some h)
    (result : SendResult) : CloseInv (s.holderStep h result) := by
  unfold holderStep
  cases hpc : h.pc with
  | push frame => exact closeInv_push hs hh hpc
  | arm => exact closeInv_unlock hs rfl id
  | closeTest code reason =>
    simp only
    by_cases ho : s.conn.state = .OPEN
    · rw [if_pos ho]
      exact closeInv_closeTest hs ho
    · rw [if_neg ho]
      exact closeInv_unlock hs rfl id
  | closeSet code reason => exact closeInv_closeSet hs hh hpc
  | flush =>
    simp only
    split
    · exact closeInv_goto hs rfl id rfl rfl
    · rename_i data queue hq
      cases result with
      | accepted n =>
        obtain ⟨h1, h2, -⟩ := accept_spec s.conn data queue n
        exact closeInv_mono hs h1 (fun ho => h2 ▸ ho) fun _ hm _ => hm
      | eagain => exact closeInv_unlock hs rfl id
      | error =>
        refine closeInv_unlock hs rfl ?_
        intro ho
        cases ho
  | armRead => exact closeInv_unlock hs rfl id

theorem closeInv_readerStep {s : Threads} (hs : CloseInv s) : CloseInv s.readerStep := by
  unfold readerStep
  split
  · -- a PONG is no CLOSE
    rename_i payload hr
    have hmem : ∀ f ∈ s.conn.queued ++ [pongFrame payload], f ∈ s.conn.queued ∨ isClose f = false := by
      intro f hf
      rcases List.mem_append.mp hf with hf | hf
      · exact .inl hf
      · rw [List.mem_singleton.mp hf]
        exact .inr rfl
    refine ⟨?_, ?_, ?_, fun h hm hp => hs.pushing h hm hp⟩
    · change ((s.conn.queued ++ [pongFrame payload]).filter isClose).length ≤ 1
      rw [List.filter_append]
      simpa [show isClose (pongFrame payload) = false from rfl] using hs.once
    · intro ho f hf
      rcases hmem f hf with hf | hf
      · exact hs.closed ho f hf
      · exact hf
    · intro h hm hc f hf
      rcases hmem f hf with hf | hf
      · exact hs.closing h hm hc f hf
      · exact hf
  · exact closeInv_mono hs rfl id fun _ hm _ => hm
  · exact closeInv_reader hs
  · split
    · exact closeInv_goto hs rfl id rfl rfl
    · exact hs
  · refine closeInv_mono hs rfl ?_ fun _ hm _ => hm
    intro ho
    cases ho
  · split
    · exact closeInv_mono hs rfl id fun _ hm _ => hm
    · exact closeInv_reader hs
  · exact closeInv_reader hs
  · exact closeInv_reader hs
  · exact closeInv_mono hs rfl id fun _ hm _ => hm
  · exact hs

theorem closeInv_step {s : Threads} (o : ThreadOp) (hs : CloseInv s) : CloseInv (s.step o) := by
  cases o with
  | call w => exact or_stay hs fun _ => closeInv_goto hs rfl id rfl (startOf_closing w)
  | broadcastTest message => exact or_stay hs fun _ => closeInv_mono hs rfl id fun _ hm _ => hm
  | broadcastSend message => exact or_stay hs fun _ => closeInv_goto hs rfl id rfl rfl
  | writable => exact or_stay hs fun _ => closeInv_goto hs rfl id rfl rfl
  | holder result =>
    cases hh : s.holder with
    | none =>
      simp only [step, hh]
      exact hs
    | some h =>
      rw [holder_step hh]
      exact closeInv_holderStep hs hh result
  | readable => exact or_stay hs fun _ => closeInv_reader hs
  | recvEnds stop =>
    refine or_stay hs fun _ => ?_
    cases stop with
    | eagain => exact closeInv_reader hs
    | error => exact closeInv_reader hs
    | eof =>
      refine closeInv_mono hs rfl ?_ fun _ hm _ => hm
      intro ho
      cases ho
  | frame frame => exact or_stay hs fun _ => closeInv_mono hs rfl id fun _ hm _ => hm
  | loopEnds => exact or_stay hs fun _ => closeInv_reader hs
  | throws => exact or_stay hs fun _ => closeInv_reader hs
  | reader => exact closeInv_readerStep hs
  | setOnMessage => exact closeInv_mono hs rfl id fun _ hm _ => hm
  | setOnClose => exact closeInv_mono hs rfl id fun _ hm _ => hm

theorem closeInv_start : CloseInv {} := by
  refine ⟨by decide, ?_, ?_, ?_⟩
  · intro _ f hf
    cases hf
  · intro h hm
    cases hm
  · intro h hm
    cases hm

/-! ## CLOSE last -/

theorem closeLast_snoc {queued : List WebSocketFrame} {frame : WebSocketFrame}
    (h : ∀ f ∈ queued, isClose f = false) {a b : List WebSocketFrame} {f : WebSocketFrame}
    (he : queued ++ [frame] = a ++ f :: b) (hf : isClose f = true) : b = [] := by
  rcases List.eq_nil_or_concat b with hb | ⟨b', g, rfl⟩
  · exact hb
  · rw [List.concat_eq_append, ← List.cons_append, ← List.append_assoc] at he
    obtain ⟨hq, -⟩ := List.append_inj' he rfl
    have hn := h f (by rw [hq]; simp)
    rw [hf] at hn
    cases hn

theorem noClose_of_pushes {s : Threads} {o : ThreadOp} {frame : WebSocketFrame} (hs : CloseInv s)
    (hp : s.pushes o = some frame) (hc : isClose frame = true) : ∀ f ∈ s.conn.queued, isClose f = false := by
  cases o with
  | holder result =>
    obtain ⟨h, hh, hf⟩ := Option.bind_eq_some_iff.mp hp
    apply hs.closing h hh
    cases hpc : h.pc with
    | push g =>
      rw [hpc, heldFrame, Option.some.injEq] at hf
      rw [hf]
      exact hc
    | _ => rw [hpc] at hf; cases hf
  | reader =>
    rw [pushes] at hp
    cases hr : s.reader with
    | pushPong payload =>
      rw [hr, pong, Option.some.injEq] at hp
      rw [← hp] at hc
      cases hc
    | _ => rw [hr] at hp; cases hp
  | _ => cases hp

theorem closeLast_step {s : Threads} {o : ThreadOp} (hs : CloseInv s) (hl : CloseLast s) (ho : PushesOpen s o) :
    CloseLast (s.step o) := by
  intro a f b he hf
  rw [queued_step] at he
  cases hp : s.pushes o with
  | none =>
    rw [hp, Option.toList_none, List.append_nil] at he
    exact hl a f b he hf
  | some frame =>
    rw [hp, Option.toList_some] at he
    refine closeLast_snoc ?_ he hf
    by_cases hc : isClose frame = true
    · exact noClose_of_pushes hs hp hc
    · rw [Bool.not_eq_true] at hc
      exact hs.closed (ho frame (by rw [hp]; rfl) hc)

/-- **CLOSE is queued once, and last** in every state of a run that pushes the
frames of the other kinds only while the connection is OPEN. -/
theorem close_last_of_open {ops : List ThreadOp} (h : EachStep step PushesOpen {} ops) :
    Always step (fun s => CloseLast s ∧ (s.conn.queued.filter isClose).length ≤ 1) {} ops := by
  have hinv : ∀ pre, CloseInv (run step {} pre) := fun pre =>
    invariant step (J := CloseInv) (fun _ o => closeInv_step o) pre closeInv_start
  have hlast : Always step CloseLast {} ops := by
    apply always_of_eachStep step (fun _ o => closeInv_step o) (fun _ _ => closeLast_step) closeInv_start ?_ h
    intro a f b he
    cases a <;> cases he
  intro pre hpre
  exact ⟨hlast pre hpre, (hinv pre).once⟩

theorem close_last_after_text :
    Always step (fun s => CloseLast s ∧ (s.conn.queued.filter isClose).length ≤ 1) {}
      [.call (.sendText [104, 105]), .holder .eagain, .call (.close 1000 []), .holder .eagain, .holder .eagain] :=
  close_last_of_open (by decide)

/-- A client's CLOSE and PING in one batch: the PONG goes behind the echo. -/
theorem close_not_last : ¬ CloseLast (run step {}
    [.readable, .recvEnds .eagain, .frame { opcode := WsOpcode.CLOSE, payload := [3, 232] }, .reader, .reader,
      .holder .eagain, .holder .eagain, .holder .eagain, .holder .eagain, .reader, .reader,
      .frame { opcode := WsOpcode.PING }, .reader]) := by
  intro h
  have hnil := h [] { opcode := WsOpcode.CLOSE, payload := [3, 232] } [{ opcode := WsOpcode.PONG }] rfl rfl
  cases hnil

end Threads

end Ryklys
