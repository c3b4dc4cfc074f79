import Ryklys.CloseLastSound

/-!
# Queued frames and the epoll interest

Every push is followed by an `ArmForWrite` of the thread that pushed. The
PONG is pushed without `write_mu_`, so it may come between the look of
`OnWritable` at the empty queue and its `ArmForRead`, which then has the last
word (`frame_stranded`). In a run where it never does, no frame is stranded
(`no_stranded_frame`).
-/

namespace Ryklys

open Runs

namespace Threads

/-- With no operation in progress, a frame in the queue has EPOLLOUT armed. -/
def NotStranded (s : Threads) : Prop :=
  s.Quiet → s.conn.state ≠ .CLOSED → s.conn.writeQueue ≠ [] → s.conn.interest = .epollout

/-- The reader arms EPOLLOUT before it leaves, unless the queue is empty then. -/
def willArm : Reader → Bool
  | .armPong | .lastLook | .lastArm => true
  | _ => false

/-- `OnWritable` arms EPOLLIN only while the queue is still empty, or the
reader is about to arm EPOLLOUT itself. -/
def ArmsReadDrained (s : Threads) : ThreadOp → Prop
  | .holder _ => ∀ h ∈ s.holder, h.pc = .armRead → s.conn.writeQueue = [] ∨ willArm s.reader = true
  | _ => True

instance (s : Threads) (o : ThreadOp) : Decidable (s.ArmsReadDrained o) := by
  unfold ArmsReadDrained
  split <;> infer_instance

/-- A frame in the queue has EPOLLOUT armed, or someone who is about to. -/
def Awake (s : Threads) : Prop :=
  s.conn.writeQueue ≠ [] →
    s.conn.interest = .epollout ∨ (∃ h ∈ s.holder, h.pc = .arm) ∨ willArm s.reader = true

theorem Awake.notStranded {s : Threads} (h : Awake s) : NotStranded s := by
  intro hquiet _ hq
  obtain ⟨hholder, hreader⟩ := hquiet
  rcases h hq with hi | ⟨holder, hm, -⟩ | hr
  · exact hi
  · rw [hholder] at hm
    cases hm
  · rw [hreader] at hr
    cases hr

/-! ## What keeps a thread awake -/

/-- A step that pushes nothing, arms nothing and lets no one who is about to
arm go. -/
theorem awake_mono {s s' : Threads} (hs : Awake s) (hq : s'.conn.writeQueue ≠ [] → s.conn.writeQueue ≠ [])
    (hi : s'.conn.interest = s.conn.interest) (hh : ∀ h ∈ s.holder, h.pc = .arm → h ∈ s'.holder)
    (hr : willArm s.reader = true → willArm s'.reader = true) : Awake s' := by
  intro hne
  rcases hs (hq hne) with h | ⟨h, hm, hp⟩ | h
  · exact .inl (hi.trans h)
  · exact .inr (.inl ⟨h, hh h hm hp, hp⟩)
  · exact .inr (.inr (hr h))

theorem awake_armed {s : Threads} (h : s.conn.interest = .epollout) : Awake s := fun _ => .inl h

theorem not_arm_of_none {s : Threads} (hn : s.holder = none) {o : Option Holder} :
    ∀ h ∈ s.holder, h.pc = .arm → h ∈ o := by
  intro h hm
  rw [hn] at hm
  cases hm

theorem not_arm_of_at {s : Threads} {h : Holder} (hh : s.holder = some h) (hpc : h.pc ≠ .arm) {o : Option Holder} :
    ∀ h' ∈ s.holder, h'.pc = .arm → h' ∈ o := by
  intro h' hm hp
  rw [hh, Option.mem_some_iff] at hm
  rw [← hm] at hp
  exact absurd hp hpc

theorem unlock_willArm {s : Threads} (h : Holder) : willArm s.reader = true → willArm (s.unlock h).reader = true := by
  unfold unlock
  cases h.byReader with
  | false => exact id
  | true =>
    cases hr : s.reader with
    | inClose code reason => intro hw; cases hw
    | _ => exact id

theorem accept_queue {c : WebSocketConnection} {data : Bytes} {queue : List Bytes} (hq : c.writeQueue = data :: queue)
    (n : Nat) : (c.accept data queue n).writeQueue ≠ [] → c.writeQueue ≠ [] := by
  intro _ hn
  rw [hq] at hn
  cases hn

theorem awake_holderStep {s : Threads} {h : Holder} (hs : Awake s) (hh : s.holder = some h) (result : SendResult)
    (ho : s.ArmsReadDrained (.holder result)) : Awake (s.holderStep h result) := by
  unfold holderStep
  cases hpc : h.pc with
  | push frame => exact fun _ => .inr (.inl ⟨_, rfl, rfl⟩)
  | arm => exact awake_armed rfl
  | closeTest code reason =>
    have hnot : ∀ {o : Option Holder}, ∀ h' ∈ s.holder, h'.pc = .arm → h' ∈ o :=
      not_arm_of_at hh (by rw [hpc]; simp)
    simp only
    split
    · exact awake_mono hs id rfl hnot id
    · exact awake_mono hs id rfl hnot (unlock_willArm h)
  | closeSet code reason => exact awake_mono hs id rfl (not_arm_of_at hh (by rw [hpc]; simp)) id
  | flush =>
    have hnot : ∀ {o : Option Holder}, ∀ h' ∈ s.holder, h'.pc = .arm → h' ∈ o :=
      not_arm_of_at hh (by rw [hpc]; simp)
    simp only
    split
    · exact awake_mono hs id rfl hnot id
    · rename_i data queue hq
      cases result with
      | accepted n =>
        exact awake_mono hs (accept_queue hq n) (accept_spec s.conn data queue n).2.2 (fun _ hm _ => hm) id
      | eagain => exact awake_mono hs id rfl hnot (unlock_willArm h)
      | error => exact awake_mono hs id rfl hnot (unlock_willArm h)
  | armRead =>
    intro hq
    rcases ho h hh hpc with hd | hr
    · exact absurd hd hq
    · exact .inr (.inr (unlock_willArm h hr))

theorem awake_readerStep {s : Threads} (hs : Awake s) : Awake s.readerStep := by
  unfold readerStep
  have hkeep : ∀ {r : Reader}, willArm s.reader = false → Awake { s with reader := r } := by
    intro r hw
    exact awake_mono hs id rfl (fun _ hm _ => hm) fun h => by rw [hw] at h; cases h
  split
  · exact fun _ => .inr (.inr rfl)
  · exact awake_armed rfl
  · rename_i hr
    exact hkeep (by rw [hr]; rfl)
  · rename_i hr
    split
    · rename_i hn
      exact awake_mono hs id rfl (not_arm_of_none hn) fun h => by rw [hr] at h; cases h
    · exact hs
  · rename_i hr
    exact awake_mono hs id rfl (fun _ hm _ => hm) fun h => by rw [hr] at h; cases h
  · rename_i hr
    split
    · exact awake_mono hs id rfl (fun _ hm _ => hm) fun h => by rw [hr] at h; cases h
    · exact hkeep (by rw [hr]; rfl)
  · rename_i hr
    exact hkeep (by rw [hr]; rfl)
  · -- the last look at the queue
    by_cases hq : s.conn.writeQueue = []
    · exact fun hne => absurd hq hne
    · rw [if_neg hq]
      exact fun _ => .inr (.inr rfl)
  · exact awake_armed rfl
  · exact hs

theorem awake_step {s : Threads} {o : ThreadOp} (hs : Awake s) (ho : s.ArmsReadDrained o) : Awake (s.step o) := by
  have hreader : ∀ {r r' : Reader}, s.reader = r → willArm r = false → Awake { s with reader := r' } := by
    intro r r' hr hw
    exact awake_mono hs id rfl (fun _ hm _ => hm) fun h => by rw [hr, hw] at h; cases h
  cases o with
  | call w => exact or_stay hs fun hn => awake_mono hs id rfl (not_arm_of_none hn) id
  | broadcastTest message => exact or_stay hs fun _ => awake_mono hs id rfl (fun _ hm _ => hm) id
  | broadcastSend message => exact or_stay hs fun hn => awake_mono hs id rfl (not_arm_of_none hn.1) id
  | writable => exact or_stay hs fun hn => awake_mono hs id rfl (not_arm_of_none hn) id
  | holder result =>
    cases hh : s.holder with
    | none =>
      simp only [step, hh]
      exact hs
    | some h =>
      rw [holder_step hh]
      exact awake_holderStep hs hh result ho
  | readable => exact or_stay hs fun hr => hreader hr rfl
  | recvEnds stop =>
    refine or_stay hs fun hr => ?_
    cases stop with
    | eagain => exact hreader hr rfl
    | error => exact hreader hr rfl
    | eof => exact awake_mono hs id rfl (fun _ hm _ => hm) fun h => by rw [hr] at h; cases h
  | frame frame =>
    refine or_stay hs fun hr => ?_
    exact awake_mono hs id rfl (fun _ hm _ => hm) fun h => by rw [hr] at h; cases h
  | loopEnds => exact or_stay hs fun hr => hreader hr rfl
  | throws =>
    refine or_stay hs fun hr => ?_
    rcases hr with hr | hr
    · exact hreader hr rfl
    · exact hreader hr rfl
  | reader => exact awake_readerStep hs
  | setOnMessage => exact awake_mono hs id rfl (fun _ hm _ => hm) id
  | setOnClose => exact awake_mono hs id rfl (fun _ hm _ => hm) id

/-! ## Every run -/

/-- **No frame is stranded** in a run where no PONG comes between the last look
of `OnWritable` at the queue and its `ArmForRead`, unless the reader arms after it. -/
theorem no_stranded_frame {ops : List ThreadOp} (h : EachStep step ArmsReadDrained {} ops) :
    Always step NotStranded {} ops := by
  apply always_of_inv step (fun _ _ => awake_step) ?_ (fun _ => Awake.notStranded) h
  intro hne
  exact absurd rfl hne

theorem no_stranded_text :
    Always step NotStranded {} [.call (.sendText [104, 105]), .holder .eagain, .holder .eagain, .writable,
      .holder (.accepted 9), .holder .eagain, .holder .eagain] :=
  no_stranded_frame (by decide)

/-- A PING is answered while `OnWritable`, which has sent a text message and
seen the queue empty, is about to arm EPOLLIN. -/
theorem frame_stranded : ¬ NotStranded (run step {}
    [.readable, .recvEnds .eagain, .call (.sendText [104, 105]), .holder .eagain, .holder .eagain, .writable,
      .holder (.accepted 9), .holder .eagain, .frame { opcode := WsOpcode.PING }, .reader, .reader, .loopEnds,
      .reader, .reader, .holder .eagain]) := by
  intro h
  have hi := h ⟨rfl, rfl⟩ (by decide) (by decide)
  cases hi

end Threads

end Ryklys
