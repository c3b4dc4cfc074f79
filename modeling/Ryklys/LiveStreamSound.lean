import Ryklys.SignallingNode

/-!
# A live stream has a live streamer, if a CLOSE ends it

A row is ended by the close callback alone. Its connection is CLOSED also by
an EOF, by a failing `send`, by a CLOSE with another code and by one in front
of `SetOnClose`, and the row is then left live (`ghost_stream`). In the runs
in which a signalling connection is closed by a CLOSE frame with a code of 1000
to 4999 that finds the callback installed, every live row has a connection
that is not CLOSED (`live_has_streamer`).
-/

namespace Ryklys

open Runs

/-! ## What closes a connection -/

namespace SigConnection

/-- A step that sets the state CLOSED, of a connection that is not, is on a
CLOSE frame that the callback takes. -/
def ClosesByFrame (c : SigConnection) : ThreadOp → Prop
  | .recvEnds .eof => c.threads.reader = .recv → c.threads.conn.state = .CLOSED
  | .holder .error =>
    ∀ h ∈ c.threads.holder, h.pc = .flush → c.threads.conn.writeQueue ≠ [] → c.threads.conn.state = .CLOSED
  | .reader =>
    match c.threads.reader with
    | .setClosed code _ => c.threads.conn.state = .CLOSED ∨ validClose code = true ∧ c.threads.conn.onClose = true
    | _ => True
  | _ => True

instance (c : SigConnection) (o : ThreadOp) : Decidable (c.ClosesByFrame o) := by
  unfold ClosesByFrame
  split
  · infer_instance
  · infer_instance
  · split <;> infer_instance
  · infer_instance

instance (c : SigConnection) : Decidable c.Idle := by
  unfold Idle Threads.Quiet
  infer_instance

def Notifies (t : Threads) : Prop :=
  ∃ code reason, t.reader = .notify code reason ∧ validClose code = true ∧ t.conn.onClose = true

end SigConnection

namespace Threads

variable {t : Threads}

theorem unlock_notify {code : UInt16} {reason : Bytes} (h : Holder) (hr : t.reader = .notify code reason) :
    (t.unlock h).reader = .notify code reason := by
  unfold unlock
  rw [hr]
  cases h.byReader <;> rfl

theorem holderStep_notify {h : Holder} {code : UInt16} {reason : Bytes} (hr : t.reader = .notify code reason)
    (result : SendResult) : (t.holderStep h result).reader = .notify code reason := by
  unfold holderStep
  cases h.pc with
  | push frame => exact hr
  | closeSet code reason => exact hr
  | arm | armRead => exact unlock_notify h hr
  | closeTest code reason =>
    simp only
    split
    · exact hr
    · exact unlock_notify h hr
  | flush =>
    simp only
    split
    · exact hr
    · cases result with
      | accepted n => exact hr
      | eagain | error => exact unlock_notify h hr

theorem step_notify {code : UInt16} {reason : Bytes} (hr : t.reader = .notify code reason) {o : ThreadOp}
    (ho : o ≠ .reader) : (t.step o).reader = .notify code reason := by
  cases o with
  | reader => exact absurd rfl ho
  | holder result =>
    cases hh : t.holder with
    | none => simpa only [step, hh] using hr
    | some h =>
      rw [holder_step hh]
      exact holderStep_notify hr result
  | setOnMessage | setOnClose => exact hr
  | call _ | broadcastTest _ | broadcastSend _ | writable =>
    exact or_stay (P := fun t' : Threads => t'.reader = .notify code reason) hr fun _ => hr
  | readable | recvEnds _ | frame _ | loopEnds | throws => simp [step, hr]

theorem holderStep_onClose (t : Threads) (h : Holder) (result : SendResult) :
    (t.holderStep h result).conn.onClose = t.conn.onClose := by
  unfold holderStep
  cases h.pc with
  | closeTest code reason =>
    simp only
    split <;> rfl
  | flush =>
    simp only
    split
    · rfl
    · cases result with
      | accepted n => exact (SendsOnly.accept t.conn _ _ n).onClose
      | eagain | error => rfl
  | _ => rfl

theorem readerStep_onClose (t : Threads) : t.readerStep.conn.onClose = t.conn.onClose := by
  unfold readerStep
  cases t.reader with
  | lockClose code reason | notify code reason =>
    simp only
    split <;> rfl
  | _ => rfl

theorem step_onClose {o : ThreadOp} (ho : o.installs = false) : (t.step o).conn.onClose = t.conn.onClose := by
  cases o with
  | holder result =>
    cases hh : t.holder with
    | none => simp only [step, hh]
    | some h =>
      rw [holder_step hh]
      exact holderStep_onClose t h result
  | reader => exact readerStep_onClose t
  | setOnMessage | setOnClose => cases ho
  | recvEnds stop =>
    exact or_stay (P := fun t' : Threads => t'.conn.onClose = t.conn.onClose) rfl fun _ => by cases stop <;> rfl
  | _ => exact or_stay (P := fun t' : Threads => t'.conn.onClose = t.conn.onClose) rfl fun _ => rfl

theorem holderStep_closed {h : Holder} {result : SendResult} (hc : (t.holderStep h result).conn.state = .CLOSED) :
    t.conn.state = .CLOSED ∨ result = .error ∧ h.pc = .flush ∧ t.conn.writeQueue ≠ [] := by
  unfold holderStep at hc
  cases hpc : h.pc with
  | push frame => rw [hpc] at hc; exact Or.inl hc
  | arm | armRead => rw [hpc] at hc; exact Or.inl hc
  | closeSet code reason => rw [hpc] at hc; cases hc
  | closeTest code reason =>
    rw [hpc] at hc
    simp only at hc
    split at hc <;> exact Or.inl hc
  | flush =>
    rw [hpc] at hc
    simp only at hc
    split at hc
    · exact Or.inl hc
    · rename_i hq
      cases result with
      | accepted n => exact Or.inl ((SendsOnly.accept t.conn _ _ n).closed.mp hc)
      | eagain => exact Or.inl hc
      | error => exact Or.inr ⟨rfl, rfl, by rw [hq]; simp⟩

theorem readerStep_closed (hc : t.readerStep.conn.state = .CLOSED) :
    t.conn.state = .CLOSED ∨ ∃ code reason, t.reader = .setClosed code reason := by
  unfold readerStep at hc
  cases hr : t.reader with
  | setClosed code reason => exact Or.inr ⟨code, reason, rfl⟩
  | lockClose code reason | notify code reason =>
    rw [hr] at hc
    simp only at hc
    split at hc <;> exact Or.inl hc
  | _ =>
    rw [hr] at hc
    exact Or.inl hc

end Threads

namespace SigConnection

variable {c : SigConnection}

/-- **One step of a thread.** It closes a connection only on the way into the callback. -/
theorem closed_step {o : ThreadOp} (ho : c.ClosesByFrame o) (hc : (c.threads.step o).conn.state = .CLOSED) :
    c.threads.conn.state = .CLOSED ∨ o = .reader ∧ Notifies (c.threads.step o) := by
  cases o with
  | holder result =>
    cases hh : c.threads.holder with
    | none =>
      simp only [Threads.step, hh] at hc
      exact Or.inl hc
    | some h =>
      rw [Threads.holder_step hh] at hc
      rcases Threads.holderStep_closed hc with hc | ⟨rfl, hpc, hq⟩
      · exact Or.inl hc
      · exact Or.inl (ho h hh hpc hq)
  | reader =>
    rcases Threads.readerStep_closed hc with hc | ⟨code, reason, hr⟩
    · exact Or.inl hc
    · rw [ClosesByFrame, hr] at ho
      refine ho.imp_right fun hv => ⟨rfl, code, reason, ?_, hv.1, ?_⟩
      · simp only [Threads.step, Threads.readerStep, hr]
      · rw [Threads.step_onClose rfl]
        exact hv.2
  | recvEnds stop =>
    by_cases hr : c.threads.reader = .recv
    · cases stop with
      | eof => exact Or.inl (ho hr)
      | eagain | error =>
        simp only [Threads.step, if_pos hr] at hc
        exact Or.inl hc
    · simp only [Threads.step, if_neg hr] at hc
      exact Or.inl hc
  | setOnMessage | setOnClose => exact Or.inl hc
  | _ =>
    simp only [Threads.step] at hc
    split at hc <;> exact Or.inl hc

end SigConnection

/-! ## Rows -/

theorem mem_setEnded {rows : List StreamRow} {streamId : Bytes} {row : StreamRow}
    (h : row ∈ StreamRow.setEnded rows streamId) :
    ∃ old ∈ rows, old.id = row.id ∧ (row.id = streamId → row.status = .ended) ∧
      (old.status = .ended → row.status = .ended) := by
  obtain ⟨old, ho, rfl⟩ := List.mem_map.mp h
  refine ⟨old, ho, ?_⟩
  by_cases hid : old.id = streamId
  · simp [hid]
  · simp [hid]

theorem mem_setEnded_of_mem {rows : List StreamRow} {old : StreamRow} (streamId : Bytes) (h : old ∈ rows) :
    ∃ row ∈ StreamRow.setEnded rows streamId, row.id = old.id := by
  refine ⟨_, List.mem_map_of_mem h, ?_⟩
  split <;> rfl

/-- The rows of one list are those of the other, some of them ended since. -/
structure Progress (rows rows' : List StreamRow) : Prop where
  back : ∀ row ∈ rows', ∃ old ∈ rows, old.id = row.id ∧ (old.status = .ended → row.status = .ended)
  forth : ∀ old ∈ rows, ∃ row ∈ rows', row.id = old.id

theorem Progress.refl (rows : List StreamRow) : Progress rows rows :=
  ⟨fun row h => ⟨row, h, rfl, id⟩, fun old h => ⟨old, h, rfl⟩⟩

theorem progress_setEnded (rows : List StreamRow) (streamId : Bytes) :
    Progress rows (StreamRow.setEnded rows streamId) := by
  refine ⟨fun row h => ?_, fun old h => mem_setEnded_of_mem streamId h⟩
  obtain ⟨old, ho, hid, _, hs⟩ := mem_setEnded h
  exact ⟨old, ho, hid, hs⟩

namespace SigConnection

variable {c : SigConnection} {rows rows' : List StreamRow}

theorem progress_onClose (c : SigConnection) (rows : List StreamRow) (code : UInt16) :
    Progress rows (c.onClose rows code) := by
  unfold onClose
  split
  · split
    · exact progress_setEnded rows _
    · exact .refl rows
  · exact .refl rows

theorem progress_threadRows (c : SigConnection) (rows : List StreamRow) (o : ThreadOp) :
    Progress rows (c.threadRows rows o) := by
  unfold threadRows
  split
  · split
    · split
      · exact progress_onClose c rows _
      · exact .refl rows
    · exact .refl rows
  · exact .refl rows

def Ended (rows : List StreamRow) (c : SigConnection) : Prop :=
  ∃ streamId, c.dbStreamId = some streamId ∧ ∀ row ∈ rows, row.id = streamId → row.status = .ended

theorem Ended.progress (h : c.Ended rows) (hp : Progress rows rows') : c.Ended rows' := by
  obtain ⟨streamId, hid, hall⟩ := h
  refine ⟨streamId, hid, fun row hrow he => ?_⟩
  obtain ⟨old, hold, hoid, hs⟩ := hp.back row hrow
  exact hs (hall old hold (hoid.trans he))

structure Tended (rows : List StreamRow) (c : SigConnection) : Prop where
  stored : ∀ streamId, c.dbStreamId = some streamId → ∃ row ∈ rows, row.id = streamId
  authorized : c.dbStreamId ≠ none → c.authorized = true
  fresh : c.setup = .create → c.dbStreamId = none
  past : c.setup ≠ .create → c.setup ≠ .finished → c.dbStreamId ≠ none
  installed : c.threads.conn.onClose = true → c.dbStreamId ≠ none
  closed : c.authorized = true → c.threads.conn.state = .CLOSED → c.Ended rows ∨ Notifies c.threads

theorem Tended.progress (h : c.Tended rows) (hp : Progress rows rows') : c.Tended rows' := by
  refine { h with stored := fun streamId hid => ?_, closed := fun ha hc => (h.closed ha hc).imp_left (·.progress hp) }
  obtain ⟨old, hold, ho⟩ := h.stored streamId hid
  obtain ⟨row, hrow, he⟩ := hp.forth old hold
  exact ⟨row, hrow, he.trans ho⟩

theorem Tended.insert (h : c.Tended rows) {streamId : Bytes} (hnew : streamId ∉ rows.map StreamRow.id) :
    c.Tended (rows ++ [⟨streamId, .live⟩]) := by
  have hother : ∀ id, c.dbStreamId = some id → id ≠ streamId := by
    intro id hid he
    obtain ⟨row, hrow, hr⟩ := h.stored id hid
    exact hnew (List.mem_map.mpr ⟨row, hrow, hr.trans he⟩)
  refine { h with stored := fun id hid => ?_, closed := fun ha hc => (h.closed ha hc).imp_left fun he => ?_ }
  · obtain ⟨row, hrow, hr⟩ := h.stored id hid
    exact ⟨row, List.mem_append_left _ hrow, hr⟩
  · obtain ⟨id, hid, hall⟩ := he
    refine ⟨id, hid, fun row hrow hr => ?_⟩
    rcases List.mem_append.mp hrow with hrow | hrow
    · exact hall row hrow hr
    · rw [List.mem_singleton.mp hrow] at hr
      exact absurd hr.symm (hother id hid)

/-- A step of the setup behind the insert leaves the threads where they are,
and may install a callback. -/
theorem Tended.goOn (h : c.Tended rows) {setup : SigSetup} {t : Threads} (hc : setup ≠ .create)
    (hid : setup ≠ .finished → c.dbStreamId ≠ none) (hs : t.conn.state = c.threads.conn.state)
    (hr : t.reader = c.threads.reader) (hon : c.threads.conn.onClose = true → t.conn.onClose = true)
    (hi : t.conn.onClose = true → c.dbStreamId ≠ none) :
    SigConnection.Tended rows { c with setup := setup, threads := t } := by
  refine { h with fresh := fun he => absurd he hc, past := fun _ => hid, installed := hi, closed := fun ha hx => ?_ }
  refine (h.closed ha (hs ▸ hx)).imp_right fun ⟨code, reason, hn, hv, ho⟩ => ?_
  exact ⟨code, reason, hr.trans hn, hv, hon ho⟩

theorem Tended.thread (h : c.Tended rows) {o : ThreadOp} (hi : o.installs = false)
    (ho : c.authorized = true → c.ClosesByFrame o) :
    SigConnection.Tended (c.threadRows rows o) { c with threads := c.threads.step o } := by
  have hp := progress_threadRows c rows o
  have hon := Threads.step_onClose (t := c.threads) hi
  refine { (h.progress hp) with installed := fun hx => h.installed (hon ▸ hx), closed := fun ha hc => ?_ }
  change SigConnection.Ended _ c ∨ Notifies (c.threads.step o)
  rcases closed_step (ho ha) hc with hc | ⟨_, hn⟩
  · rcases h.closed ha hc with he | ⟨code, reason, hr, hv, hoc⟩
    · exact Or.inl (he.progress hp)
    · by_cases hreader : o = .reader
      · -- the callback ends the row
        subst hreader
        cases hid : c.dbStreamId with
        | none => exact absurd hid (h.installed hoc)
        | some streamId =>
          refine Or.inl ⟨streamId, hid, fun row hrow he => ?_⟩
          simp only [threadRows, hr, if_pos hoc, onClose, if_pos hv, hid] at hrow
          obtain ⟨_, _, _, hs, _⟩ := mem_setEnded hrow
          exact hs he
      · exact Or.inr ⟨code, reason, Threads.step_notify hr hreader, hv, hon ▸ hoc⟩
  · exact Or.inr hn

end SigConnection

/-! ## Every run -/

namespace SignallingNode

/-- The condition of a step. -/
def Clean (s : SignallingNode) : NodeOp → Prop
  | .thread i op => ∀ c ∈ s.conns[i]?, c.authorized = true → c.ClosesByFrame op
  | _ => True

instance (s : SignallingNode) (o : NodeOp) : Decidable (s.Clean o) := by
  cases o <;> unfold Clean <;> infer_instance

instance (s : SignallingNode) : Decidable s.LiveHasStreamer := by
  unfold LiveHasStreamer
  infer_instance

structure Kept (s : SignallingNode) : Prop where
  owner : ∀ row ∈ s.rows, ∃ c ∈ s.conns, c.dbStreamId = some row.id
  tended : ∀ c ∈ s.conns, c.Tended s.rows

variable {s : SignallingNode}

theorem Kept.liveHasStreamer (h : s.Kept) : s.LiveHasStreamer := by
  intro hidle row hrow hlive
  obtain ⟨c, hc, hid⟩ := h.owner row hrow
  refine ⟨c, hc, hid, fun hclosed => ?_⟩
  have ht := h.tended c hc
  rcases ht.closed (ht.authorized (by rw [hid]; simp)) hclosed with ⟨streamId, he, hall⟩ | ⟨code, reason, hr, _⟩
  · rw [hid] at he
    have hended := hall row hrow (Option.some.inj he)
    rw [hlive] at hended
    cases hended
  · have hquiet := (hidle c hc).2.2
    rw [hr] at hquiet
    cases hquiet

theorem mem_set_or {l : List SigConnection} {i : Nat} {c d : SigConnection} (hi : l[i]? = some c) (hd : d ∈ l)
    (c' : SigConnection) : d = c ∨ d ∈ l.set i c' := by
  obtain ⟨k, hk, rfl⟩ := List.getElem_of_mem hd
  by_cases hki : i = k
  · subst hki
    rw [List.getElem?_eq_getElem hk, Option.some.injEq] at hi
    exact Or.inl hi
  · exact Or.inr (List.mem_iff_getElem.mpr ⟨k, by simpa using hk, List.getElem_set_ne hki _⟩)

theorem mem_set_self {l : List SigConnection} {i : Nat} {c : SigConnection} (hi : l[i]? = some c)
    (c' : SigConnection) : c' ∈ l.set i c' := List.mem_set (List.getElem?_eq_some_iff.mp hi).1 c'

theorem Kept.set (h : s.Kept) {i : Nat} {c c' : SigConnection} (hi : s.conns[i]? = some c) {rows : List StreamRow}
    (hp : Progress s.rows rows) (hid : c'.dbStreamId = c.dbStreamId) (ht : c'.Tended rows) :
    Kept { rows := rows, conns := s.conns.set i c' } := by
  constructor
  · intro row hrow
    obtain ⟨old, hold, ho, _⟩ := hp.back row hrow
    obtain ⟨d, hd, hdid⟩ := h.owner old hold
    rw [ho] at hdid
    rcases mem_set_or hi hd c' with rfl | hd
    · exact ⟨c', mem_set_self hi c', hid.trans hdid⟩
    · exact ⟨d, hd, hdid⟩
  · intro d hd
    rcases List.mem_or_eq_of_mem_set hd with hd | rfl
    · exact (h.tended d hd).progress hp
    · exact ht

theorem Kept.setConn (h : s.Kept) {i : Nat} {c c' : SigConnection} (hi : s.conns[i]? = some c)
    (hid : c'.dbStreamId = c.dbStreamId) (ht : c'.Tended s.rows) : (s.setConn i c').Kept :=
  h.set hi (.refl s.rows) hid ht

theorem Kept.ofConn (h : s.Kept) {i : Nat} {f : SigConnection → SignallingNode}
    (hf : ∀ c, s.conns[i]? = some c → (f c).Kept) : (s.ofConn i f).Kept := by
  unfold SignallingNode.ofConn
  cases hi : s.conns[i]? with
  | none => exact h
  | some c => exact hf c hi

/-- The row that is inserted belongs to the connection, which has no other and
is not closed. -/
theorem Kept.create (h : s.Kept) {i : Nat} {c : SigConnection} (hi : s.conns[i]? = some c) (hs : c.setup = .create)
    (ha : c.authorized = true) {streamId : Bytes} (hnew : streamId ∉ s.rows.map StreamRow.id) :
    (s.create i c streamId).Kept := by
  have ht := h.tended c (List.mem_of_getElem? hi)
  have hnone := ht.fresh hs
  constructor
  · intro row hrow
    rcases List.mem_append.mp hrow with hrow | hrow
    · obtain ⟨d, hd, hdid⟩ := h.owner row hrow
      rcases mem_set_or hi hd { c with setup := .peerConnection, dbStreamId := some streamId } with rfl | hd
      · rw [hnone] at hdid
        cases hdid
      · exact ⟨d, hd, hdid⟩
    · rw [List.mem_singleton.mp hrow]
      exact ⟨_, mem_set_self hi _, rfl⟩
  · intro d hd
    rcases List.mem_or_eq_of_mem_set hd with hd | rfl
    · exact (h.tended d hd).insert hnew
    · refine { stored := fun id hid => ?_, authorized := fun _ => ha, fresh := fun he => (by cases he),
               past := fun _ _ => (by simp), installed := fun _ => (by simp), closed := fun _ hc => ?_ }
      · cases hid
        exact ⟨_, List.mem_append_right _ (List.mem_singleton.mpr rfl), rfl⟩
      · rcases ht.closed ha hc with ⟨id, hid, _⟩ | ⟨_, _, _, _, ho⟩
        · rw [hnone] at hid
          cases hid
        · exact absurd hnone (ht.installed ho)

theorem Kept.setup (h : s.Kept) {i : Nat} {c : SigConnection} (hi : s.conns[i]? = some c) (streamId : Bytes) :
    (s.setupStep i c streamId).Kept := by
  have ht := h.tended c (List.mem_of_getElem? hi)
  have hends : (s.setConn i { c with setup := .finished }).Kept :=
    h.setConn hi rfl (ht.goOn (by decide) (fun hx => absurd rfl hx) rfl rfl id ht.installed)
  unfold setupStep
  cases hs : c.setup with
  | create =>
    by_cases ha : c.authorized = true
    · simp only [if_pos ha]
      by_cases hnew : streamId ∈ s.rows.map StreamRow.id
      · rw [if_pos hnew]
        exact hends
      · rw [if_neg hnew]
        exact h.create hi hs ha hnew
    · simp only [if_neg ha]
      exact hends
  | peerConnection =>
    have hid := ht.past (by rw [hs]; decide) (by rw [hs]; decide)
    exact h.setConn hi rfl (ht.goOn (by decide) (fun _ => hid) rfl rfl id ht.installed)
  | setOnMessage =>
    have hid := ht.past (by rw [hs]; decide) (by rw [hs]; decide)
    exact h.setConn hi rfl (ht.goOn (by decide) (fun _ => hid) rfl rfl id ht.installed)
  | setOnClose =>
    have hid := ht.past (by rw [hs]; decide) (by rw [hs]; decide)
    exact h.setConn hi rfl (ht.goOn (by decide) (fun hx => absurd rfl hx) rfl rfl (fun _ => rfl) (fun _ => hid))
  | finished => exact h

theorem tended_connect (rows : List StreamRow) (authorized : Bool) :
    SigConnection.Tended rows { authorized := authorized } where
  stored _ h := by cases h
  authorized h := absurd rfl h
  fresh _ := rfl
  past h := absurd rfl h
  installed h := by cases h
  closed _ h := by cases h

theorem Kept.step (h : s.Kept) (o : NodeOp) (ho : s.Clean o) : (s.step o).Kept := by
  cases o with
  | connect authorized =>
    constructor
    · intro row hrow
      obtain ⟨d, hd, hdid⟩ := h.owner row hrow
      exact ⟨d, List.mem_append_left _ hd, hdid⟩
    · intro d hd
      rcases List.mem_append.mp hd with hd | hd
      · exact h.tended d hd
      · rw [List.mem_singleton.mp hd]
        exact tended_connect s.rows authorized
  | setup i streamId => exact h.ofConn fun c hi => h.setup hi streamId
  | setupThrows i =>
    refine h.ofConn fun c hi => or_stay h fun _ => ?_
    have ht := h.tended c (List.mem_of_getElem? hi)
    exact h.setConn hi rfl (ht.goOn (by decide) (fun hx => absurd rfl hx) rfl rfl id ht.installed)
  | thread i op =>
    refine h.ofConn fun c hi => ?_
    have ht := h.tended c (List.mem_of_getElem? hi)
    unfold threadStep
    by_cases hinst : op.installs = true
    · rw [if_pos hinst]
      exact h
    · rw [if_neg hinst]
      exact h.set hi (SigConnection.progress_threadRows c s.rows op) rfl
        (ht.thread (Bool.not_eq_true _ ▸ hinst) (ho c hi))

/-- **Live streams.** In every state of a clean run in which no handler is in
progress, each live row has a signalling connection that is not CLOSED. -/
theorem live_has_streamer {ops : List NodeOp} (h : EachStep step Clean {} ops) :
    Always step LiveHasStreamer {} ops :=
  always_of_inv step (I := Kept) (fun _ o hk ho => hk.step o ho)
    ⟨fun _ hr => (by cases hr), fun _ hc => (by cases hc)⟩ (fun _ hk => hk.liveHasStreamer) h

def streamRun (ends : List ThreadOp) : List NodeOp :=
  [.connect true, .setup 0 [97], .setup 0 [], .setup 0 [], .setup 0 []] ++ ends.map (.thread 0)

def closeOps (payload : Bytes) : List ThreadOp :=
  [.readable, .recvEnds .eagain, .frame { opcode := WsOpcode.CLOSE, payload := payload }, .reader, .reader,
    .holder .eagain, .holder .eagain, .holder .eagain, .holder .eagain, .reader, .reader, .reader, .loopEnds,
    .reader, .reader]

theorem stream_closed_1000 : Always step LiveHasStreamer {} (streamRun (closeOps [3, 232])) :=
  live_has_streamer (by decide)

/-- The EOF of the peer, and a CLOSE with code 5000. -/
theorem ghost_stream :
    ¬ Always step LiveHasStreamer {} (streamRun [.readable, .recvEnds .eof]) ∧
      ¬ Always step LiveHasStreamer {} (streamRun (closeOps [19, 136])) := by
  constructor
  · intro h
    exact absurd (h.last step) (by decide)
  · intro h
    exact absurd (h.last step) (by decide)

end SignallingNode

end Ryklys
