import Ryklys.ChatRelay
import Ryklys.Runs

/-!
# Every message once, in order

What is queued on a connection is tagged with the delivery it comes from. A
delivery's tag is on the connections that its `Broadcast` found OPEN, once on
each and on no other, and the tags of a connection increase. The deliveries are
the arrays that the run hands to the relay, and a `Broadcast` that no lock keeps
waiting returns (`fanout`).
-/

namespace Ryklys

open Runs

theorem relayed_pmessage (pattern message : Bytes) {streamId : Bytes} (h : streamId ≠ []) :
    relayed [bytes "pmessage", pattern, bytes "chat:" ++ streamId, message] = some (streamId, message) := by
  have hlen : ¬(bytes "chat:" ++ streamId).length ≤ 5 := by
    have hpos := List.length_pos_of_ne_nil h
    rw [List.length_append, show (bytes "chat:").length = 5 from rfl]
    omega
  have hdrop : (bytes "chat:" ++ streamId).drop 5 = streamId := List.drop_left' rfl
  have hp : RedisClient.pmessage [bytes "pmessage", pattern, bytes "chat:" ++ streamId, message] =
      some (bytes "chat:" ++ streamId, message) := by
    simp only [RedisClient.pmessage, if_true]
  rw [relayed, hp]
  simp only
  rw [if_neg hlen, hdrop]

namespace Delivery

variable {γ : Type} (d : Delivery γ)

def message : Bytes := ((relayed d.array).map Prod.snd).getD []

variable [DecidableEq γ]

/-- What the delivery with the number `i` leaves in a connection's log. -/
def entries (i : Nat) (ws : γ) : List (Option Nat × WebSocketFrame) :=
  if (ws, .OPEN) ∈ d.seen then [(some i, textFrame d.message)] else []

/-- The connections that the delivery came to, and those still before it, are
those registered for its stream. -/
def Covers (d : Delivery γ) (waiting : List γ) : Prop :=
  ∀ streamId message, relayed d.array = some (streamId, message) →
    (d.seen.map Prod.fst ++ waiting).Nodup ∧
      ∀ ws, ws ∈ d.seen.map Prod.fst ++ waiting ↔ ws ∈ d.registry.members streamId

end Delivery

namespace Fanout

section
variable {γ : Type} {s : Fanout γ}

/-- The delivery with the number `i`, the one under way included. -/
def delivery (s : Fanout γ) (i : Nat) : Option (Delivery γ) :=
  if i = s.delivered.length then s.relaying.map Relaying.delivery else s.delivered[i]?

def tagged (s : Fanout γ) (ws : γ) (i : Nat) : List (Option Nat × WebSocketFrame) :=
  (s.log ws).filter fun e => e.1 = some i

def tags (s : Fanout γ) (ws : γ) : List Nat := (s.log ws).filterMap Prod.fst

theorem tagged_ne_nil {ws : γ} {i : Nat} (h : i ∈ s.tags ws) : s.tagged ws i ≠ [] := by
  obtain ⟨e, he, hi⟩ := List.mem_filterMap.mp h
  intro hn
  have hm : e ∈ s.tagged ws i := List.mem_filter.mpr ⟨he, by simpa using hi⟩
  rw [hn] at hm
  cases hm

theorem delivery_le {i : Nat} {d : Delivery γ} (h : s.delivery i = some d) : i ≤ s.delivered.length := by
  unfold delivery at h
  split at h
  · rename_i hi
    exact Nat.le_of_eq hi
  · exact Nat.le_of_lt (List.getElem?_eq_some_iff.mp h).1

theorem delivery_append (h : s.relaying = none) (d : Delivery γ) (i : Nat) (hi : i ≠ s.delivered.length) :
    Fanout.delivery { s with delivered := s.delivered ++ [d] } i = s.delivery i := by
  unfold delivery
  simp only [List.length_append, List.length_singleton, h, Option.map_none, if_neg hi]
  by_cases hl : i = s.delivered.length + 1
  · rw [if_pos hl, List.getElem?_eq_none (by omega)]
  · rw [if_neg hl]
    rcases Nat.lt_or_ge i s.delivered.length with hlt | hge
    · exact List.getElem?_append_left hlt
    · rw [List.getElem?_eq_none hge, List.getElem?_eq_none (by rw [List.length_append, List.length_singleton]; omega)]

theorem message_of_relayed {d : Delivery γ} {streamId message : Bytes}
    (h : relayed d.array = some (streamId, message)) : d.message = message := by
  rw [Delivery.message, h]
  rfl

theorem covers_sees {r : Relaying γ} {ws : γ} {waiting : List γ} (hr : r.waiting = ws :: waiting)
    (hc : r.delivery.Covers r.waiting) (state : WsState) :
    (r.sees ws state waiting).delivery.Covers (r.sees ws state waiting).waiting := by
  intro streamId message he
  have hs : (r.delivery.seen ++ [(ws, state)]).map Prod.fst ++ waiting = r.delivery.seen.map Prod.fst ++ r.waiting := by
    rw [hr, List.map_append, List.append_assoc]
    rfl
  obtain ⟨hnodup, hmem⟩ := hc streamId message he
  refine ⟨?_, ?_⟩
  · change ((r.delivery.seen ++ [(ws, state)]).map Prod.fst ++ waiting).Nodup
    rwa [hs]
  · intro ws'
    change ws' ∈ (r.delivery.seen ++ [(ws, state)]).map Prod.fst ++ waiting ↔ _
    rw [hs]
    exact hmem ws'

theorem not_seen {r : Relaying γ} {ws : γ} {waiting : List γ} (hr : r.waiting = ws :: waiting)
    (hc : r.delivery.Covers r.waiting) {streamId : Bytes}
    (he : relayed r.delivery.array = some (streamId, r.message)) (state : WsState) : (ws, state) ∉ r.delivery.seen := by
  intro hm
  obtain ⟨hnodup, -⟩ := hc streamId r.message he
  rw [hr] at hnodup
  exact List.disjoint_of_nodup_append hnodup (List.mem_map_of_mem hm) List.mem_cons_self

end

variable {γ : Type} [DecidableEq γ] {s : Fanout γ}

structure Inv (s : Fanout γ) : Prop where
  queued : ∀ ws, (s.log ws).map Prod.snd = (s.conns ws).conn.queued
  once : ∀ ws i, s.tagged ws i = ((s.delivery i).map fun d => d.entries i ws).getD []
  order : ∀ ws, (s.tags ws).Pairwise (· < ·)
  done : ∀ d ∈ s.delivered, d.Covers []
  current : ∀ r ∈ s.relaying, r.delivery.Covers r.waiting ∧
    ∃ streamId, relayed r.delivery.array = some (streamId, r.message)
  noEmpty : s.registry.NoEmpty

/-- A tag names a delivery that found the connection OPEN. -/
theorem delivery_of_tag (h : Inv s) {ws : γ} {i : Nat} (hi : i ∈ s.tags ws) :
    ∃ d, s.delivery i = some d ∧ (ws, .OPEN) ∈ d.seen := by
  have hne := tagged_ne_nil hi
  rw [h.once] at hne
  cases hd : s.delivery i with
  | none =>
    rw [hd] at hne
    exact absurd rfl hne
  | some d =>
    refine ⟨d, rfl, ?_⟩
    by_contra hn
    rw [hd, Option.map_some, Option.getD_some, Delivery.entries, if_neg hn] at hne
    exact hne rfl

/-! ## Logs -/

theorem log_addLog (s : Fanout γ) (ws ws' : γ) (es : List (Option Nat × WebSocketFrame)) :
    (s.addLog ws es).log ws' = s.log ws' ++ if ws' = ws then es else [] := by
  change Function.update s.log ws (s.log ws ++ es) ws' = _
  by_cases h : ws' = ws
  · rw [if_pos h, h, Function.update_self]
  · rw [if_neg h, Function.update_of_ne h, List.append_nil]

theorem conns_setConn (s : Fanout γ) (ws ws' : γ) (c : Threads) :
    (s.setConn ws c).conns ws' = if ws' = ws then c else s.conns ws' := Function.update_apply _ _ _ _

theorem queued_addLog (h : Inv s) {ws : γ} {c : Threads} {es : List (Option Nat × WebSocketFrame)}
    (hq : c.conn.queued = (s.conns ws).conn.queued ++ es.map Prod.snd) (ws' : γ) :
    (((s.setConn ws c).addLog ws es).log ws').map Prod.snd =
      (((s.setConn ws c).addLog ws es).conns ws').conn.queued := by
  have hconns : ((s.setConn ws c).addLog ws es).conns ws' = if ws' = ws then c else s.conns ws' :=
    conns_setConn s ws ws' c
  have hlog : ((s.setConn ws c).addLog ws es).log ws' = s.log ws' ++ if ws' = ws then es else [] :=
    log_addLog (s.setConn ws c) ws ws' es
  rw [hconns, hlog, List.map_append, h.queued]
  by_cases he : ws' = ws
  · rw [if_pos he, if_pos he, he, hq]
  · rw [if_neg he, if_neg he, List.map_nil, List.append_nil]

theorem inv_untagged (h : Inv s) {ws : γ} {c : Threads} {frames : List WebSocketFrame}
    (hq : c.conn.queued = (s.conns ws).conn.queued ++ frames) :
    Inv ((s.setConn ws c).addLog ws (frames.map fun frame => (none, frame))) := by
  have hlog : ∀ ws', ((s.setConn ws c).addLog ws (frames.map fun frame => (none, frame))).log ws' =
      s.log ws' ++ if ws' = ws then frames.map fun frame => (none, frame) else [] :=
    fun ws' => log_addLog (s.setConn ws c) ws ws' _
  refine ⟨queued_addLog h (by rw [hq]; simp [Function.comp_def]), ?_, ?_, h.done, h.current, h.noEmpty⟩
  · intro ws' i
    refine Eq.trans ?_ (h.once ws' i)
    rw [tagged, hlog, List.filter_append]
    refine Eq.trans (congrArg _ ?_) (List.append_nil _)
    rw [List.filter_eq_nil_iff]
    intro e he
    split at he
    · obtain ⟨frame, -, rfl⟩ := List.mem_map.mp he
      simp
    · cases he
  · intro ws'
    rw [tags, hlog, List.filterMap_append]
    have hnil : (if ws' = ws then frames.map fun frame => ((none : Option Nat), frame) else []).filterMap Prod.fst =
        [] := by
      rw [List.filterMap_eq_nil_iff]
      intro e he
      split at he
      · obtain ⟨frame, -, rfl⟩ := List.mem_map.mp he
        rfl
      · cases he
    rw [hnil, List.append_nil]
    exact h.order ws'

theorem queued_call {c : WebSocketConnection} (ho : c.state = .OPEN) (w : WsCall) :
    (c.call w).queued = c.queued ++ [frameOf w] := by
  cases w with
  | close code reason =>
    rw [WebSocketConnection.call, WebSocketConnection.close, if_neg (by rw [ho]; simp)]
    rfl
  | _ => rfl

/-! ## The relay's sends -/

theorem entries_sees (r : Relaying γ) (ws ws' : γ) (state : WsState) (waiting : List γ) (i : Nat)
    (hn : (ws, WsState.OPEN) ∉ r.delivery.seen) :
    (r.sees ws state waiting).delivery.entries i ws' = r.delivery.entries i ws' ++
      if ws' = ws ∧ state = .OPEN then [(some i, textFrame r.delivery.message)] else [] := by
  have hmem : (ws', WsState.OPEN) ∈ (r.sees ws state waiting).delivery.seen ↔
      (ws', WsState.OPEN) ∈ r.delivery.seen ∨ (ws' = ws ∧ state = .OPEN) := by
    change _ ∈ r.delivery.seen ++ [(ws, state)] ↔ _
    rw [List.mem_append, List.mem_singleton, Prod.mk.injEq, eq_comm (a := WsState.OPEN)]
  have hmessage : (r.sees ws state waiting).delivery.message = r.delivery.message := rfl
  unfold Delivery.entries
  rw [hmessage]
  by_cases h : ws' = ws ∧ state = .OPEN
  · rw [if_pos (hmem.mpr (.inr h)), if_neg (by rw [h.1]; exact hn), if_pos h, List.nil_append]
  · rw [if_neg h, List.append_nil]
    by_cases hs : (ws', WsState.OPEN) ∈ r.delivery.seen
    · rw [if_pos hs, if_pos (hmem.mpr (.inl hs))]
    · rw [if_neg hs, if_neg fun hm => (hmem.mp hm).elim hs h]

theorem inv_sees (h : Inv s) {r : Relaying γ} (hs : s.relaying = some r) {ws : γ} {waiting : List γ}
    (hr : r.waiting = ws :: waiting) (state : WsState) {s' : Fanout γ}
    (hreg : s'.registry = s.registry) (hdel : s'.delivered = s.delivered)
    (hrel : s'.relaying = some (r.sees ws state waiting))
    (hq : ∀ ws', (s'.log ws').map Prod.snd = (s'.conns ws').conn.queued)
    (hlog : ∀ ws', s'.log ws' = s.log ws' ++
      if ws' = ws ∧ state = .OPEN then [(some s.delivered.length, textFrame r.message)] else []) : Inv s' := by
  obtain ⟨hcover, streamId, hrelayed⟩ := h.current r hs
  have hn := not_seen hr hcover hrelayed .OPEN
  have hd : ∀ i, s'.delivery i =
      if i = s.delivered.length then some (r.sees ws state waiting).delivery else s.delivered[i]? := by
    intro i
    rw [delivery, hdel, hrel]
    rfl
  have hd₀ : s.delivery s.delivered.length = some r.delivery := by
    rw [delivery, if_pos rfl, hs]
    rfl
  refine ⟨hq, ?_, ?_, ?_, ?_, ?_⟩
  · intro ws' i
    have hold := h.once ws' i
    rw [tagged, hlog, List.filter_append]
    by_cases hi : i = s.delivered.length
    · rw [hd, if_pos hi, Option.map_some, Option.getD_some, entries_sees r ws ws' state waiting i hn]
      rw [hi, hd₀, Option.map_some, Option.getD_some] at hold
      rw [hi, message_of_relayed hrelayed]
      change s.tagged ws' _ ++ _ = _
      rw [hold]
      congr 1
      split <;> simp
    · have hsame : s'.delivery i = s.delivery i := by rw [hd, if_neg hi, delivery, if_neg hi]
      rw [hsame, ← hold]
      refine Eq.trans (congrArg _ ?_) (List.append_nil _)
      split
      · simp [Ne.symm hi]
      · rfl
  · intro ws'
    rw [tags, hlog, List.filterMap_append]
    by_cases hw : ws' = ws ∧ state = .OPEN
    · rw [if_pos hw]
      refine List.pairwise_append.mpr ⟨h.order ws', List.pairwise_singleton _ _, ?_⟩
      intro i hi j hj
      -- a tag that is there already is of an earlier delivery
      rw [List.mem_singleton.mp hj]
      obtain ⟨d, hdi, hseen⟩ := delivery_of_tag h hi
      refine Nat.lt_of_le_of_ne (delivery_le hdi) ?_
      intro he
      rw [he, hd₀, Option.some.injEq] at hdi
      rw [← hdi, hw.1] at hseen
      exact hn hseen
    · rw [if_neg hw, List.filterMap_nil, List.append_nil]
      exact h.order ws'
  · rw [hdel]
    exact h.done
  · intro r' hr'
    rw [hrel, Option.mem_some_iff] at hr'
    rw [← hr']
    exact ⟨covers_sees hr hcover state, streamId, hrelayed⟩
  · rw [hreg]
    exact h.noEmpty

theorem inv_relaySend (h : Inv s) {r : Relaying γ} (hs : s.relaying = some r) {ws : γ} {waiting : List γ}
    (hr : r.waiting = ws :: waiting) : Inv (s.relaySend r ws waiting) := by
  unfold relaySend
  by_cases ho : (s.conns ws).conn.state = .OPEN
  · simp only [if_pos ho]
    by_cases hh : (s.conns ws).holder = none
    · rw [if_pos hh]
      refine inv_sees h hs hr (s.conns ws).conn.state rfl rfl rfl ?_ ?_
      · exact queued_addLog h (queued_call ho (.sendText r.message))
      · intro ws'
        refine Eq.trans (log_addLog _ ws ws' _) ?_
        rw [ho]
        by_cases hw : ws' = ws
        · rw [if_pos hw, if_pos ⟨hw, rfl⟩]
          rfl
        · rw [if_neg hw, if_neg fun hc => hw hc.1]
          rfl
    · rw [if_neg hh]
      exact h
  · simp only [if_neg ho]
    refine inv_sees h hs hr (s.conns ws).conn.state rfl rfl rfl h.queued ?_
    intro ws'
    rw [if_neg fun hc => ho hc.2, List.append_nil]

/-! ## The relay's other steps -/

theorem inv_ignored (h : Inv s) (hs : s.relaying = none) {d : Delivery γ} (hd : relayed d.array = none)
    (hseen : d.seen = []) : Inv { s with delivered := s.delivered ++ [d] } := by
  refine ⟨h.queued, ?_, h.order, ?_, ?_, h.noEmpty⟩
  · intro ws i
    refine (h.once ws i).trans ?_
    by_cases hi : i = s.delivered.length
    · have hnone : s.delivery i = none := by rw [delivery, if_pos hi, hs]; rfl
      have hsome : Fanout.delivery { s with delivered := s.delivered ++ [d] } i = some d := by
        rw [delivery, hi, if_neg (by simp)]
        exact List.getElem?_concat_length
      have hentries : d.entries i ws = [] := by
        rw [Delivery.entries, hseen, if_neg (by simp)]
      rw [hnone, hsome, Option.map_some, Option.getD_some, hentries]
      rfl
    · rw [delivery_append hs d i hi]
  · intro d' hd'
    rcases List.mem_append.mp hd' with hd' | hd'
    · exact h.done d' hd'
    · rw [List.mem_singleton.mp hd']
      intro streamId message he
      rw [hd] at he
      cases he
  · intro r hr
    rw [show s.relaying = some r from hr] at hs
    cases hs

theorem inv_snapshot (h : Inv s) (hs : s.relaying = none) {array : List Bytes} {streamId message : Bytes}
    (ha : relayed array = some (streamId, message)) {snapshot : List γ} (hn : snapshot.Nodup)
    (hm : snapshot.toFinset = s.registry.members streamId) :
    Inv { s with
      relaying := some { delivery := { array, registry := s.registry }, message, waiting := snapshot } } := by
  refine ⟨h.queued, ?_, h.order, h.done, ?_, h.noEmpty⟩
  · intro ws i
    refine (h.once ws i).trans ?_
    by_cases hi : i = s.delivered.length
    · have hnone : s.delivery i = none := by rw [delivery, if_pos hi, hs]; rfl
      rw [hnone, delivery, if_pos hi]
      change _ = Delivery.entries _ i ws
      rw [Delivery.entries, if_neg (by simp)]
      rfl
    · rw [delivery, delivery, if_neg hi, if_neg hi]
  · intro r hr
    rw [Option.mem_some_iff] at hr
    rw [← hr]
    refine ⟨?_, streamId, ha⟩
    intro streamId' message' he
    change relayed array = _ at he
    rw [ha, Option.some.injEq, Prod.mk.injEq] at he
    refine ⟨hn, fun ws => ?_⟩
    rw [← he.1, ← hm, List.mem_toFinset]
    rfl

theorem inv_return (h : Inv s) {r : Relaying γ} (hs : s.relaying = some r) (hr : r.waiting = []) :
    Inv { s with delivered := s.delivered ++ [r.delivery], relaying := none } := by
  refine ⟨h.queued, ?_, h.order, ?_, ?_, h.noEmpty⟩
  · intro ws i
    refine (h.once ws i).trans (congrArg (fun d => (Option.map _ d).getD []) ?_)
    by_cases hi : i = s.delivered.length
    · rw [delivery, delivery, if_pos hi, hs, hi, if_neg (by simp)]
      exact List.getElem?_concat_length.symm
    · rw [delivery, if_neg hi]
      refine Eq.trans ?_ (delivery_append (s := { s with relaying := none }) rfl r.delivery i hi).symm
      rw [delivery, if_neg hi]
  · intro d hd
    rcases List.mem_append.mp hd with hd | hd
    · exact h.done d hd
    · rw [List.mem_singleton.mp hd, ← hr]
      exact (h.current r hs).1
  · intro r' hr'
    cases hr'

theorem inv_deliver (h : Inv s) (array : List Bytes) (snapshot : List γ) : Inv (s.deliver array snapshot) := by
  unfold deliver
  split
  · exact h
  · rename_i hs
    split
    · rename_i ha
      exact inv_ignored (d := { array, registry := s.registry }) h hs ha rfl
    · rename_i streamId message ha
      split
      · rename_i hc
        exact inv_snapshot h hs ha hc.1 hc.2
      · exact h

theorem inv_relayStep (h : Inv s) : Inv s.relayStep := by
  unfold relayStep
  split
  · exact h
  · rename_i r hs
    split
    · rename_i hr
      exact inv_return h hs hr
    · rename_i ws waiting hr
      exact inv_relaySend h hs hr

theorem inv_send (h : Inv s) (ws : γ) (call : WsCall) : Inv (s.step (.send ws call)) := by
  refine or_stay h fun _ => ?_
  have hp : Inv { s with pending := s.pending.erase (ws, call) } :=
    ⟨h.queued, h.once, h.order, h.done, h.current, h.noEmpty⟩
  refine or_stay hp fun ho => ?_
  exact inv_untagged (c := { s.conns ws with conn := (s.conns ws).conn.call call }) hp (queued_call ho call)

theorem inv_step (op : FanoutOp γ) (h : Inv s) : Inv (s.step op) := by
  cases op with
  | add streamId ws => exact ⟨h.queued, h.once, h.order, h.done, h.current, ViewerRegistry.noEmpty_add h.noEmpty⟩
  | remove streamId ws =>
    exact ⟨h.queued, h.once, h.order, h.done, h.current, ViewerRegistry.noEmpty_remove h.noEmpty⟩
  | broadcast streamId message => exact ⟨h.queued, h.once, h.order, h.done, h.current, h.noEmpty⟩
  | closeAll streamId code reason =>
    exact ⟨h.queued, h.once, h.order, h.done, h.current, ViewerRegistry.noEmpty_closeAll h.noEmpty⟩
  | send ws call => exact inv_send h ws call
  | deliver array snapshot => exact inv_deliver h array snapshot
  | relay => exact inv_relayStep h
  | conn ws op => exact inv_untagged h (Threads.queued_step _ op)

theorem inv_init : Inv ({} : Fanout γ) := by
  refine ⟨fun _ => rfl, ?_, fun _ => List.Pairwise.nil, ?_, ?_, ViewerRegistry.noEmpty_init⟩
  · intro ws i
    cases i with
    | zero => rfl
    | succ i => rfl
  · intro d hd
    cases hd
  · intro r hr
    cases hr

/-! ## The deliveries of a run -/

/-- `psubscribe` reads on once the callback is back; a snapshot lists the set. -/
def takes (s : Fanout γ) (array : List Bytes) (snapshot : List γ) : Bool :=
  s.relaying.isNone &&
    match relayed array with
    | none => true
    | some (streamId, _) => decide (snapshot.Nodup ∧ snapshot.toFinset = s.registry.members streamId)

/-- The array that an operation hands to the relay, with the registry it meets. -/
def arrival (s : Fanout γ) : FanoutOp γ → Option (List Bytes × ViewerRegistry γ)
  | .deliver array snapshot => if s.takes array snapshot then some (array, s.registry) else none
  | _ => none

def arrivals : Fanout γ → List (FanoutOp γ) → List (List Bytes × ViewerRegistry γ)
  | _, [] => []
  | s, o :: ops => (s.arrival o).toList ++ arrivals (s.step o) ops

omit [DecidableEq γ] in
/-- What the relay was handed, the array it is at included. -/
def handed (s : Fanout γ) : List (List Bytes × ViewerRegistry γ) :=
  (s.delivered ++ (s.relaying.map Relaying.delivery).toList).map fun d => (d.array, d.registry)

theorem handed_relaySend {r : Relaying γ} (hs : s.relaying = some r) (ws : γ) (waiting : List γ) :
    (s.relaySend r ws waiting).handed = s.handed := by
  have hsees : ∀ s' : Fanout γ, s'.delivered = s.delivered →
      s'.relaying = some (r.sees ws (s.conns ws).conn.state waiting) → s'.handed = s.handed := by
    intro s' hdel hrel
    rw [handed, handed, hdel, hrel, hs, List.map_append, List.map_append]
    rfl
  unfold relaySend
  dsimp only
  split
  · split
    · exact hsees _ rfl rfl
    · rfl
  · exact hsees _ rfl rfl

theorem handed_relayStep (s : Fanout γ) : s.relayStep.handed = s.handed := by
  unfold relayStep
  split
  · rfl
  · rename_i r hs
    split
    · rw [handed, handed, hs, List.append_assoc]
      rfl
    · exact handed_relaySend hs _ _

theorem handed_deliver (s : Fanout γ) (array : List Bytes) (snapshot : List γ) :
    (s.deliver array snapshot).handed = s.handed ++ (s.arrival (.deliver array snapshot)).toList := by
  unfold deliver arrival takes
  dsimp only
  cases hs : s.relaying with
  | some r => exact (List.append_nil _).symm
  | none =>
    cases ha : relayed array with
    | none => simp [handed, hs]
    | some p =>
      by_cases hc : snapshot.Nodup ∧ snapshot.toFinset = s.registry.members p.1
      · simp [handed, hs, hc.1, hc.2]
      · simp [handed, hs, hc]

theorem handed_step (s : Fanout γ) (o : FanoutOp γ) : (s.step o).handed = s.handed ++ (s.arrival o).toList := by
  cases o with
  | deliver array snapshot => exact handed_deliver s array snapshot
  | relay => exact (handed_relayStep s).trans (List.append_nil _).symm
  | send ws call =>
    refine Eq.trans ?_ (List.append_nil _).symm
    rw [step]
    split
    · dsimp only
      split <;> rfl
    · rfl
  | _ => exact (List.append_nil _).symm

theorem handed_run (ops : List (FanoutOp γ)) : ∀ s : Fanout γ, (run step s ops).handed = s.handed ++ arrivals s ops := by
  induction ops with
  | nil => exact fun s => (List.append_nil _).symm
  | cons o ops ih =>
    intro s
    rw [run_cons, ih, handed_step, arrivals, List.append_assoc]

/-! ## The relay left alone -/

theorem relay_sees {r : Relaying γ} (hs : s.relaying = some r) {ws : γ} {waiting : List γ}
    (hr : r.waiting = ws :: waiting) (hfree : (s.conns ws).conn.state = .OPEN → (s.conns ws).holder = none) :
    (s.step .relay).relaying = some (r.sees ws (s.conns ws).conn.state waiting) := by
  rw [step, relayStep, hs]
  dsimp only
  rw [hr]
  dsimp only
  rw [relaySend]
  split
  · rename_i ho
    rw [if_pos (hfree ho)]
  · rfl

theorem relay_keeps {r : Relaying γ} (hs : s.relaying = some r) {ws : γ} {waiting : List γ}
    (hr : r.waiting = ws :: waiting) :
    (s.step .relay).delivered = s.delivered ∧ ∀ ws', ((s.step .relay).conns ws').holder = (s.conns ws').holder := by
  rw [step, relayStep, hs]
  dsimp only
  rw [hr]
  dsimp only
  rw [relaySend]
  dsimp only
  split
  · split
    · refine ⟨rfl, fun ws' => ?_⟩
      have hconns := conns_setConn s ws ws'
        { s.conns ws with conn := (s.conns ws).conn.call (.sendText r.message) }
      refine (congrArg Threads.holder hconns).trans ?_
      split
      · rename_i he
        rw [he]
      · rfl
    · exact ⟨rfl, fun _ => rfl⟩
  · exact ⟨rfl, fun _ => rfl⟩

/-- With no `write_mu_` held, each of its steps takes `Broadcast` on by one. -/
theorem relay_returns (n : Nat) : ∀ {s : Fanout γ} {r : Relaying γ}, s.relaying = some r → r.waiting.length = n →
    (∀ ws, (s.conns ws).holder = none) →
    ∃ d, (run step s (List.replicate (n + 1) .relay)).delivered = s.delivered ++ [d] ∧
      d.array = r.delivery.array ∧ d.registry = r.delivery.registry := by
  induction n with
  | zero =>
    intro s r hs hn _
    refine ⟨r.delivery, ?_, rfl, rfl⟩
    rw [List.replicate_one, run_cons, run_nil, step, relayStep, hs]
    dsimp only
    rw [List.length_eq_zero_iff.mp hn]
  | succ n ih =>
    intro s r hs hn hfree
    obtain ⟨ws, waiting, hr⟩ := List.exists_cons_of_length_eq_add_one hn
    obtain ⟨hdel, hhold⟩ := relay_keeps hs hr
    have hnext := relay_sees hs hr fun _ => hfree ws
    have hlen : waiting.length = n := by
      rw [hr, List.length_cons] at hn
      exact Nat.succ.inj hn
    obtain ⟨d, hd, ha, hreg⟩ := ih hnext hlen fun ws' => (hhold ws').trans (hfree ws')
    refine ⟨d, ?_, ha, hreg⟩
    rw [List.replicate_succ, run_cons, hd, hdel]

/-! ## Every run -/

/-- A message of the subscription, once its `Broadcast` has returned: it came to
each connection registered for its stream once, and is queued once, as a TEXT
frame, on those it found OPEN and on no other. -/
def Delivered (s : Fanout γ) (i : Nat) (d : Delivery γ) : Prop :=
  ∀ pattern streamId message, streamId ≠ [] →
    d.array = [bytes "pmessage", pattern, bytes "chat:" ++ streamId, message] →
    (d.seen.map Prod.fst).Nodup ∧
      (∀ ws, ws ∈ d.seen.map Prod.fst ↔ ws ∈ d.registry.members streamId) ∧
      ∀ ws, s.tagged ws i = if (ws, .OPEN) ∈ d.seen then [(some i, textFrame message)] else []

theorem Inv.delivered (h : Inv s) {i : Nat} {d : Delivery γ} (hi : s.delivered[i]? = some d) : s.Delivered i d := by
  intro pattern streamId message hne ha
  have hr : relayed d.array = some (streamId, message) := by rw [ha, relayed_pmessage pattern message hne]
  obtain ⟨hlt, hget⟩ := List.getElem?_eq_some_iff.mp hi
  have hm : d ∈ s.delivered := by
    rw [← hget]
    exact List.getElem_mem hlt
  obtain ⟨hnodup, hmem⟩ := h.done d hm streamId message hr
  rw [List.append_nil] at hnodup hmem
  refine ⟨hnodup, hmem, fun ws => ?_⟩
  have hd : s.delivery i = some d := by rw [delivery, if_neg (Nat.ne_of_lt hlt), hi]
  rw [h.once, hd, Option.map_some, Option.getD_some, Delivery.entries, message_of_relayed hr]

/-- **Fan-out.** The logs are what was queued; every delivered message is there
once on every connection that was registered and OPEN; on each connection the
messages are in delivery order; no entry of the registry is empty; the relay was
handed the arrays of the run, in order; what it sees of a connection is the state
at its send; and where no lock keeps it waiting it comes through. -/
theorem fanout (ops : List (FanoutOp γ)) :
    let s := run step ({} : Fanout γ) ops
    (∀ ws, (s.log ws).map Prod.snd = (s.conns ws).conn.queued) ∧
    (∀ i d, s.delivered[i]? = some d → s.Delivered i d) ∧
    (∀ ws, (s.tags ws).Pairwise (· < ·)) ∧
    s.registry.NoEmpty ∧
    s.handed = arrivals {} ops ∧
    (∀ r ws waiting, s.relaying = some r → r.waiting = ws :: waiting →
      ((s.conns ws).conn.state = .OPEN → (s.conns ws).holder = none) →
      (s.step .relay).relaying = some (r.sees ws (s.conns ws).conn.state waiting)) ∧
    ∀ r, s.relaying = some r → (∀ ws, (s.conns ws).holder = none) →
      ∃ d, (run step s (List.replicate (r.waiting.length + 1) .relay)).delivered = s.delivered ++ [d] ∧
        d.array = r.delivery.array ∧ d.registry = r.delivery.registry := by
  intro s
  have h : Inv s := invariant step (J := Inv) (fun _ op => inv_step op) ops inv_init
  refine ⟨h.queued, fun i d hi => h.delivered hi, h.order, h.noEmpty, ?_, ?_, ?_⟩
  · exact handed_run ops {}
  · exact fun _ _ _ hs hr hfree => relay_sees hs hr hfree
  · exact fun _ hs hfree => relay_returns _ hs rfl hfree

end Fanout

end Ryklys
