import Ryklys.StreamSound

/-!
# Frames and throwing callbacks

The frame loop erases a frame's bytes after its callback returned. When an
exception leaves a read, the frame is still at the front of the buffer, and the
next read dispatches it again (`delivered_once_iff`).
-/

namespace Ryklys

open Runs SelfDelimiting

/-! ## The loop on a cut stream -/

/-- The loop on the first `n` bytes of a stream dispatches `m` frames and erases
`erased` of them: all complete ones, or all but the last that was dispatched. -/
structure Stops (fs : List ClientFrame) (n : Nat) (c : WebSocketConnection) (result : WebSocketConnection × Option Exn)
    (m erased : Nat) : Prop where
  dispatched : result.1.dispatched = c.dispatched ++ (fs.take m).map ClientFrame.frame
  readBuffer : result.1.readBuffer = c.readBuffer.drop (frameCodec.stream (fs.take erased)).length
  ends : (result.2 = none ∧ m = frameCodec.completed fs n ∧ m = erased) ∨
    (result.2 = some .other ∧ m ≤ frameCodec.completed fs n ∧ m = erased + 1)

theorem stops_idle {fs : List ClientFrame} {n : Nat} {c c' : WebSocketConnection} (hc : SendsOnly c c')
    (h0 : frameCodec.completed fs n = 0) : Stops fs n c (c', none) 0 0 :=
  ⟨by simp [hc.dispatched], by simp [hc.readBuffer], Or.inl ⟨rfl, h0.symm, rfl⟩⟩

theorem frameLoop_stream (fuel : Nat) : ∀ (fs : List ClientFrame) (n : Nat) (c : WebSocketConnection)
    (reactions : List Reaction), c.readBuffer = (frameCodec.stream fs).take n → c.readBuffer.length ≤ fuel →
    ∃ m erased, Stops fs n c (c.frameLoop fuel reactions) m erased := by
  induction fuel with
  | zero =>
    intro fs n c reactions hbuf hfuel
    have hle := frameCodec.completed_le_take fs n
    rw [← hbuf] at hle
    exact ⟨0, 0, stops_idle (armIfQueued_spec c) (by omega)⟩
  | succ fuel ih =>
    intro fs n c reactions hbuf hfuel
    cases fs with
    | nil =>
      have hnil : c.readBuffer = [] := by simp [hbuf]
      refine ⟨0, 0, ?_⟩
      rw [WebSocketConnection.frameLoop, if_pos hnil]
      exact stops_idle (armIfQueued_spec c) rfl
    | cons f fs =>
      have hdec : frameDec c.readBuffer = if f.encode.length ≤ n then some (f.frame, f.encode.length) else none := by
        rw [hbuf]
        exact frameCodec.dec_stream_cons f fs n
      have hcompleted : frameCodec.completed (f :: fs) n =
        if f.encode.length ≤ n then frameCodec.completed fs (n - f.encode.length) + 1 else 0 := rfl
      rcases frameLoop_cases fuel c reactions with ⟨hd, he | ⟨e, hp, -⟩⟩ | ⟨frame, consumed, hd, he⟩
      · rw [hd] at hdec
        split at hdec
        · cases hdec
        · rename_i hlt
          rw [he]
          exact ⟨0, 0, stops_idle (armIfQueued_spec c) (by rw [hcompleted, if_neg hlt])⟩
      · -- `Parse` does not throw on a cut stream
        obtain ⟨r, hr⟩ := parse_rest (f :: fs) n
        rw [hbuf, hr] at hp
        cases hp
      · rw [hd] at hdec
        split at hdec
        · rename_i hle
          cases hdec
          have hspec := dispatch_spec c reactions f.frame
          rw [he]
          by_cases ht : (reacts c.onMessage c.onClose reactions f.frame).2 = true
          · rw [if_pos ht]
            refine ⟨1, 0, hspec.dispatched, by simp [hspec.readBuffer], Or.inr ⟨rfl, ?_, rfl⟩⟩
            rw [hcompleted, if_pos hle]
            omega
          · rw [if_neg ht]
            have hrest : (c.dispatch reactions f.frame).1.readBuffer.drop f.encode.length =
                (frameCodec.stream fs).take (n - f.encode.length) := by
              rw [hspec.readBuffer, hbuf]
              exact frameCodec.drop_stream_cons f fs n
            have hpos := frameCodec.enc_length_pos f
            obtain ⟨m, erased, h⟩ := ih fs (n - f.encode.length)
              { (c.dispatch reactions f.frame).1 with
                readBuffer := (c.dispatch reactions f.frame).1.readBuffer.drop f.encode.length }
              (reacts c.onMessage c.onClose reactions f.frame).1 hrest (by
                change 0 < f.encode.length at hpos
                simp only [List.length_drop, hspec.readBuffer]
                omega)
            refine ⟨m + 1, erased + 1, ?_, ?_, ?_⟩
            · rw [h.dispatched]
              simp [hspec.dispatched]
            · rw [h.readBuffer]
              simp only [hspec.readBuffer, List.drop_drop, List.take_succ_cons, Codec.stream_cons, List.length_append]
              rfl
            · rw [hcompleted, if_pos hle]
              rcases h.ends with ⟨h1, h2, h3⟩ | ⟨h1, h2, h3⟩
              · exact Or.inl ⟨h1, by omega, by omega⟩
              · exact Or.inr ⟨h1, by omega, by omega⟩
        · cases hdec

/-! ## Runs with the frames numbered -/

/-- A connection, and what was read from and done with its stream so far. -/
structure FrameLog where
  conn : WebSocketConnection
  received : Bytes := []
  -- how much had arrived when the loop last ran
  examined : Nat := 0
  -- frames whose bytes were erased
  erased : Nat := 0
  -- the places in the stream of the frames dispatched
  delivered : List Nat := []
  -- an exception left the last run of the loop
  threw : Bool := false

namespace FrameLog

/-- The loop numbers the frames it dispatches on from those that are erased. -/
def read (s : FrameLog) (chunks : List Bytes) (reactions : List Reaction) : FrameLog :=
  let r := s.conn.onReadable ⟨chunks, .eagain⟩ reactions
  let m := r.1.dispatched.length - s.conn.dispatched.length
  { conn := r.1
    received := s.received ++ chunks.flatten
    examined := (s.received ++ chunks.flatten).length
    erased := s.erased + m - if r.2.isSome then 1 else 0
    delivered := s.delivered ++ List.range' s.erased m
    threw := r.2.isSome }

def step (s : FrameLog) : WsOp → FrameLog
  | .readable ⟨chunks, .eagain⟩ reactions => s.read chunks reactions
  | o => { s with conn := s.conn.step o, received := s.received ++ o.chunk }

/-- The frames dispatched are the first of the stream, each once and in order,
and all complete ones unless an exception left the loop. -/
structure Once (c : WebSocketConnection) (fs : List ClientFrame) (s : FrameLog) : Prop where
  frames : s.conn.dispatched.map some = c.dispatched.map some ++ s.delivered.map fun i => fs[i]?.map ClientFrame.frame
  once : s.delivered = List.range s.delivered.length
  all : s.threw = false → s.delivered.length = frameCodec.completed fs s.examined

/-- The loop does not run again after an exception left it. -/
def AfterReturn (s : FrameLog) : WsOp → Prop
  | .readable ⟨_, .eagain⟩ _ => s.threw = false
  | _ => True

instance (s : FrameLog) (o : WsOp) : Decidable (s.AfterReturn o) := by
  unfold AfterReturn
  split <;> infer_instance

structure Inv (c : WebSocketConnection) (fs : List ClientFrame) (s : FrameLog) : Prop where
  buffer : s.conn.readBuffer = s.received.drop (frameCodec.stream (fs.take s.erased)).length
  frames : s.conn.dispatched.map some = c.dispatched.map some ++ s.delivered.map fun i => fs[i]?.map ClientFrame.frame
  examined_le : s.examined ≤ s.received.length
  returned : s.threw = false → s.erased = frameCodec.completed fs s.examined
  threw : s.threw = true → s.erased < frameCodec.completed fs s.examined ∧ s.erased ∈ s.delivered

variable {c : WebSocketConnection} {fs : List ClientFrame} {s : FrameLog}

theorem Inv.erased_le (h : Inv c fs s) : s.erased ≤ frameCodec.completed fs s.received.length := by
  have hmono := frameCodec.completed_mono fs h.examined_le
  cases ht : s.threw with
  | false => rw [h.returned ht]; exact hmono
  | true => exact Nat.le_of_lt (Nat.lt_of_lt_of_le (h.threw ht).1 hmono)

/-- One run of the loop in a run on a stream. -/
structure Reads (fs : List ClientFrame) (s : FrameLog) (chunks : List Bytes) (reactions : List Reaction) (m : Nat) :
    Prop where
  delivered : (s.read chunks reactions).delivered = s.delivered ++ List.range' s.erased m
  dispatched : (s.read chunks reactions).conn.dispatched =
    s.conn.dispatched ++ ((fs.drop s.erased).take m).map ClientFrame.frame
  readBuffer : (s.read chunks reactions).conn.readBuffer =
    (s.received ++ chunks.flatten).drop (frameCodec.stream (fs.take (s.read chunks reactions).erased)).length
  le : s.erased + m ≤ frameCodec.completed fs (s.received ++ chunks.flatten).length
  ends : ((s.read chunks reactions).threw = false ∧ (s.read chunks reactions).erased = s.erased + m ∧
      s.erased + m = frameCodec.completed fs (s.received ++ chunks.flatten).length) ∨
    ((s.read chunks reactions).threw = true ∧ (s.read chunks reactions).erased + 1 = s.erased + m ∧ 0 < m)

theorem read_spec (h : Inv c fs s) {chunks : List Bytes} (reactions : List Reaction)
    (hs : s.received ++ chunks.flatten <+: frameCodec.stream fs) : ∃ m, Reads fs s chunks reactions m := by
  have herased : s.erased ≤ frameCodec.completed fs (s.received ++ chunks.flatten).length :=
    Nat.le_trans h.erased_le (frameCodec.completed_mono fs (by simp))
  have hle := frameCodec.stream_take_le h.erased_le
  have hbuf : s.conn.readBuffer ++ chunks.flatten = (frameCodec.stream (fs.drop s.erased)).take
      ((s.received ++ chunks.flatten).length - (frameCodec.stream (fs.take s.erased)).length) := by
    rw [← frameCodec.after_snd hs, h.buffer, Codec.after, List.drop_append_of_le_length hle]
  have hbuf' : s.conn.readBuffer ++ chunks.flatten =
      (s.received ++ chunks.flatten).drop (frameCodec.stream (fs.take s.erased)).length := by
    rw [h.buffer, List.drop_append_of_le_length hle]
  obtain ⟨m, erased, hstop⟩ := frameLoop_stream _ (fs.drop s.erased) _
    { s.conn with readBuffer := s.conn.readBuffer ++ chunks.flatten } reactions hbuf (Nat.le_refl _)
  have hread : s.conn.onReadable ⟨chunks, .eagain⟩ reactions =
      WebSocketConnection.frameLoop (s.conn.readBuffer ++ chunks.flatten).length
        { s.conn with readBuffer := s.conn.readBuffer ++ chunks.flatten } reactions := by
    simp only [WebSocketConnection.onReadable, drain_eq]
  rw [← hread] at hstop
  obtain ⟨hd, hb, hends⟩ := hstop
  change _ = s.conn.dispatched ++ _ at hd
  simp only [frameCodec.completed_drop herased] at hends
  have hm : m ≤ (fs.drop s.erased).length := by
    have := frameCodec.completed_le_length fs (s.received ++ chunks.flatten).length
    rw [List.length_drop]
    omega
  have hcount : (s.conn.onReadable ⟨chunks, .eagain⟩ reactions).1.dispatched.length - s.conn.dispatched.length = m := by
    rw [hd, List.length_append, List.length_map, List.length_take_of_le hm]
    omega
  have herase : (s.read chunks reactions).erased = s.erased + erased := by
    simp only [read, hcount]
    rcases hends with ⟨h1, -, h3⟩ | ⟨h1, -, h3⟩
    · rw [h1]; simp; omega
    · rw [h1]; simp; omega
  have hthrew : (s.read chunks reactions).threw = (s.conn.onReadable ⟨chunks, .eagain⟩ reactions).2.isSome := rfl
  refine ⟨m, by rw [read, hcount], hd, ?_, by omega, ?_⟩
  · rw [herase, List.take_add, Codec.stream_append, List.length_append, ← List.drop_drop, ← hbuf']
    exact hb
  · rw [herase, hthrew]
    rcases hends with ⟨h1, h2, h3⟩ | ⟨h1, h2, h3⟩
    · exact Or.inl ⟨by rw [h1]; rfl, by omega, by omega⟩
    · exact Or.inr ⟨by rw [h1]; rfl, by omega, by omega⟩

theorem map_range' {r m : Nat} (h : r + m ≤ fs.length) :
    (List.range' r m).map (fun i => fs[i]?.map ClientFrame.frame) =
      (((fs.drop r).take m).map ClientFrame.frame).map some := by
  apply List.ext_getElem
  · simp
    omega
  · intro i h1 h2
    rw [List.length_map, List.length_range'] at h1
    simp [List.getElem?_eq_getElem (show r + i < fs.length by omega)]

theorem Inv.read (h : Inv c fs s) {chunks : List Bytes} (reactions : List Reaction)
    (hs : s.received ++ chunks.flatten <+: frameCodec.stream fs) : Inv c fs (s.read chunks reactions) := by
  obtain ⟨m, hr⟩ := read_spec h reactions hs
  have hlen := frameCodec.completed_le_length fs (s.received ++ chunks.flatten).length
  have hle := hr.le
  refine ⟨hr.readBuffer, ?_, Nat.le_refl _, fun ht => ?_, fun ht => ?_⟩
  · rw [hr.dispatched, hr.delivered, List.map_append, List.map_append, h.frames, map_range' (by omega),
      List.append_assoc]
  · rcases hr.ends with ⟨-, h2, h3⟩ | ⟨h1, -, -⟩
    · rw [h2, h3]
      rfl
    · rw [ht] at h1
      cases h1
  · rcases hr.ends with ⟨h1, -, -⟩ | ⟨-, h2, h3⟩
    · rw [ht] at h1
      cases h1
    · refine ⟨?_, ?_⟩
      · change _ < frameCodec.completed fs (s.received ++ chunks.flatten).length
        omega
      · rw [hr.delivered, List.mem_append, List.mem_range'_1]
        right
        omega

theorem Once.read (h : Inv c fs s) (ho : Once c fs s) {chunks : List Bytes} (reactions : List Reaction)
    (hs : s.received ++ chunks.flatten <+: frameCodec.stream fs) :
    Once c fs (s.read chunks reactions) ↔ s.threw = false := by
  obtain ⟨m, hr⟩ := read_spec h reactions hs
  constructor
  · intro ho'
    by_contra ht
    obtain ⟨hlt, hmem⟩ := h.threw (by simpa using ht)
    -- the frame at the front is complete, so the loop dispatches it again
    have hm : 0 < m := by
      have hmono := frameCodec.completed_mono fs (show s.examined ≤ (s.received ++ chunks.flatten).length by
        have := h.examined_le
        rw [List.length_append]
        omega)
      rcases hr.ends with ⟨-, -, h3⟩ | ⟨-, -, h3⟩ <;> omega
    have hnodup : (s.read chunks reactions).delivered.Nodup := by
      rw [ho'.once]
      exact List.nodup_range
    rw [hr.delivered, List.nodup_append] at hnodup
    exact hnodup.2.2 _ hmem _ (List.mem_range'_1.mpr ⟨Nat.le_refl _, by omega⟩) rfl
  · intro ht
    have hk : s.delivered.length = s.erased := by rw [ho.all ht, h.returned ht]
    have hdel : (s.read chunks reactions).delivered = List.range (s.erased + m) := by
      rw [hr.delivered, ho.once, hk, List.range_eq_range', List.range_eq_range', List.range'_append_1.symm,
        Nat.zero_add]
    refine ⟨(h.read reactions hs).frames, by rw [hdel, List.length_range], fun ht' => ?_⟩
    rw [hdel, List.length_range]
    rcases hr.ends with ⟨-, -, h3⟩ | ⟨h1, -, -⟩
    · exact h3
    · rw [ht'] at h1
      cases h1

/-! ## Whole runs -/

def Idle : WsOp → Prop
  | .readable ⟨_, .eagain⟩ _ => False
  | _ => True

theorem step_idle {o : WsOp} (ho : Idle o) :
    s.step o = { s with conn := s.conn.step o, received := s.received ++ o.chunk } ∧
    (s.conn.step o).dispatched = s.conn.dispatched ∧ (s.conn.step o).readBuffer = s.conn.readBuffer ++ o.chunk := by
  cases o with
  | readable d reactions =>
    obtain ⟨chunks, stop⟩ := d
    cases stop with
    | eagain => exact absurd ho id
    | error => exact ⟨rfl, rfl, drain_eq _ _⟩
    | eof => exact ⟨rfl, rfl, drain_eq _ _⟩
  | writable results =>
    obtain ⟨h1, h2⟩ := onWritable_reads results s.conn
    exact ⟨rfl, h1, by rw [WsOp.chunk, List.append_nil]; exact h2⟩
  | call w =>
    have hw := SendsOnly.call s.conn w
    exact ⟨rfl, hw.dispatched, by rw [WsOp.chunk, List.append_nil]; exact hw.readBuffer⟩

theorem Inv.idle (h : Inv c fs s) {o : WsOp} (ho : Idle o) : Inv c fs (s.step o) := by
  obtain ⟨he, hd, hb⟩ := step_idle ho
  have hle := frameCodec.stream_take_le h.erased_le
  rw [he]
  refine ⟨?_, by rw [hd]; exact h.frames, ?_, h.returned, h.threw⟩
  · rw [hb, h.buffer, List.drop_append_of_le_length hle]
  · exact Nat.le_trans h.examined_le (by simp)

theorem Once.idle (h : Once c fs s) {o : WsOp} (ho : Idle o) : Once c fs (s.step o) := by
  obtain ⟨he, hd, -⟩ := step_idle ho
  rw [he]
  exact ⟨by rw [hd]; exact h.frames, h.once, h.all⟩

theorem read_or_idle (o : WsOp) : (∃ chunks reactions, o = .readable ⟨chunks, .eagain⟩ reactions) ∨ Idle o := by
  cases o with
  | readable d reactions =>
    obtain ⟨chunks, stop⟩ := d
    cases stop with
    | eagain => exact Or.inl ⟨chunks, reactions, rfl⟩
    | error => exact Or.inr trivial
    | eof => exact Or.inr trivial
  | writable results => exact Or.inr trivial
  | call w => exact Or.inr trivial

theorem received_step (s : FrameLog) (o : WsOp) : (s.step o).received = s.received ++ o.chunk := by
  rcases read_or_idle o with ⟨chunks, reactions, rfl⟩ | ho
  · rfl
  · rw [(step_idle ho).1]

theorem received_run (s : FrameLog) (ops : List WsOp) : (run step s ops).received = s.received ++ wsReceived ops := by
  induction ops generalizing s with
  | nil => simp [wsReceived]
  | cons o ops ih =>
    rw [run_cons, ih, received_step, List.append_assoc]
    rfl

/-- A step on the stream: it keeps the invariant, and what holds of the frames
exactly when the loop does not run again after an exception. -/
theorem step_on_stream (h : Inv c fs s) (o : WsOp) (hs : (s.step o).received <+: frameCodec.stream fs) :
    Inv c fs (s.step o) ∧ (Once c fs s → (Once c fs (s.step o) ↔ s.AfterReturn o)) := by
  rcases read_or_idle o with ⟨chunks, reactions, rfl⟩ | ho
  · exact ⟨h.read reactions hs, fun hp => hp.read h reactions hs⟩
  · have hr : s.AfterReturn o := by
      cases o with
      | readable d reactions =>
        obtain ⟨chunks, stop⟩ := d
        cases stop with
        | eagain => exact absurd ho id
        | _ => exact trivial
      | _ => exact trivial
    exact ⟨h.idle ho, fun hp => ⟨fun _ => hr, fun _ => hp.idle ho⟩⟩

theorem inv_start (hempty : c.readBuffer = []) : Inv c fs { conn := c } := by
  have h0 := frameCodec.completed_le fs 0
  refine ⟨by simp [hempty], by simp, Nat.le_refl _, fun _ => ?_, fun ht => by cases ht⟩
  simp only
  omega

theorem once_start : Once c fs { conn := c } := by
  have h0 := frameCodec.completed_le fs 0
  refine ⟨by simp, rfl, fun _ => ?_⟩
  simp only [List.length_nil]
  omega

/-- **Delivery.** In a run on a stream of frames, whatever its callbacks do, each
frame is dispatched once and in order exactly when no run of the loop follows
one that an exception left. -/
theorem delivered_once_iff {c : WebSocketConnection} (hempty : c.readBuffer = []) {fs : List ClientFrame}
    {ops : List WsOp} (hcut : wsReceived ops <+: (fs.map ClientFrame.encode).flatten) :
    Always step (Once c fs) { conn := c } ops ↔ EachStep step AfterReturn { conn := c } ops := by
  refine always_iff_along step (J := Inv c fs) (fun pre o hp hinv => ?_) (inv_start hempty) once_start
  refine step_on_stream hinv o ?_
  obtain ⟨post, rfl⟩ := hp
  rw [received_step, received_run, List.nil_append]
  refine List.IsPrefix.trans ?_ hcut
  simp [wsReceived]

theorem delivered_once_hello :
    Always step (Once { onMessage := true } [helloFrame]) { conn := { onMessage := true } }
      [.readable ⟨[helloFrame.encode.take 3], .eagain⟩ [],
       .readable ⟨[helloFrame.encode.drop 3], .eagain⟩ [⟨[], true⟩]] :=
  (delivered_once_iff rfl (by decide)).mpr (by decide)

/-- The first callback throws: the next read calls back with the same frame. -/
theorem not_delivered_once :
    ¬ Always step (Once { onMessage := true } [helloFrame, helloFrame])
      { conn := { onMessage := true } }
      [.readable ⟨[helloFrame.encode], .eagain⟩ [⟨[], true⟩], .readable ⟨[helloFrame.encode], .eagain⟩ []] := by
  intro h
  exact absurd h.last.once (by decide)

end FrameLog

end Ryklys
