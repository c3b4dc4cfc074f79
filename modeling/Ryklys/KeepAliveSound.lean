import Ryklys.KeepAlive

/-!
# The answers a waiting client reads

The invariant says how far each party is in the requests and in their
responses: the server has decoded every request it has whole, the wire holds
the first responses and the queue the next ones, the client has decoded every
response it has whole. A client that waits never lets two requests wait, so
one decoded request for each call is enough.
-/

namespace Ryklys.KeepAlive

open Runs SelfDelimiting

variable {X : Externals} {S : ZvejysServer} {rs : List (PlainRequest X)} {ps : List FramedResponse}
  {s : KeepAlive}

/-- The server has read `got` of the requests and written `out` responses. -/
structure Stage (rs : List (PlainRequest X)) (ps : List FramedResponse) (s : KeepAlive)
    (got : Bytes) (out : Nat) : Prop where
  flight : got ++ s.flight = (requestCodec X).stream (rs.take s.sent)
  server : Simulates X s.connection ((requestCodec X).after rs ((requestCodec X).completed rs got.length) got)
  out_le : out ≤ s.connection.handled.length
  wire : s.connection.wire = responseCodec.stream (ps.take out)
  queue : s.connection.responseQueue = ((ps.take s.connection.handled.length).drop out).map Subtype.val
  interest : s.connection.interest = if s.connection.responseQueue = [] then .epollin else .epollout
  taken : s.taken ≤ s.connection.wire.length
  client : s.client = responseCodec.after ps (responseCodec.completed ps s.taken) (s.connection.wire.take s.taken)
  sent : s.sent ≤ rs.length
  waits : s.sent ≤ s.client.1.length + 1

def Inv (rs : List (PlainRequest X)) (ps : List FramedResponse) (s : KeepAlive) : Prop :=
  ∃ got out, Stage rs ps s got out

theorem inv_start : Inv rs ps {} := by
  refine ⟨[], 0, rfl, ?_, Nat.le_refl _, rfl, rfl, rfl, Nat.le_refl _, (responseCodec.after_start ps).symm,
    Nat.zero_le _, Nat.zero_le _⟩
  rw [List.length_nil, Codec.after_start]
  exact ⟨rfl, rfl⟩

namespace Stage

variable {got : Bytes} {out : Nat} (h : Stage rs ps s got out)

include h

theorem handled_eq : s.connection.handled.length = (requestCodec X).completed rs got.length := by
  have hlen := congrArg List.length h.server.2
  have hle := (requestCodec X).completed_le_length rs got.length
  simp only [List.length_map, Codec.after, List.length_take] at hlen
  omega

theorem handled_le : s.connection.handled.length ≤ s.sent := by
  rw [h.handled_eq]
  have hlen := congrArg List.length h.flight
  rw [List.length_append] at hlen
  have hmono := (requestCodec X).completed_mono rs (Nat.le.intro hlen)
  rwa [(requestCodec X).completed_take h.sent] at hmono

theorem wire_initial : s.connection.wire <+: responseCodec.stream ps := by
  rw [h.wire]
  exact responseCodec.stream_take_initial ps out

theorem client_eq : s.client.1 = (ps.take (responseCodec.completed ps s.taken)).map responseCodec.out := by
  rw [h.client]
  rfl

theorem client_length : s.client.1.length = responseCodec.completed ps s.taken := by
  have hle := responseCodec.completed_le_length ps s.taken
  rw [h.client_eq, List.length_map, List.length_take]
  omega

variable (ha : AnswersAll S rs ps)

include ha

theorem out_le_length : out ≤ ps.length := by
  have := h.out_le
  have := h.handled_le
  have := h.sent
  have := ha.length_eq
  omega

theorem client_le : s.client.1.length ≤ out := by
  have htaken := h.taken
  rw [h.wire] at htaken
  have hmono := responseCodec.completed_mono ps htaken
  rwa [responseCodec.completed_take (h.out_le_length ha), ← h.client_length] at hmono

end Stage

/-! ## One step -/

theorem Stage.send {got : Bytes} {out : Nat} (h : Stage rs ps s got out) {r : PlainRequest X}
    (hr : rs[s.sent]? = some r) (hw : s.client.1.length = s.sent) :
    Stage rs ps { s with sent := s.sent + 1, flight := s.flight ++ r.text } got out := by
  refine ⟨?_, h.server, h.out_le, h.wire, h.queue, h.interest, h.taken, h.client, ?_, ?_⟩
  · dsimp only
    rw [← List.append_assoc, h.flight, List.take_add_one, hr, Option.toList_some, Codec.stream_append]
    simp only [Codec.stream_cons, Codec.stream_nil, List.append_nil]
    rfl
  · obtain ⟨hlt, -⟩ := List.getElem?_eq_some_iff.mp hr
    exact hlt
  · dsimp only
    rw [hw]

theorem Stage.receive {got : Bytes} {out : Nat} (h : Stage rs ps s got out) (n : Nat) :
    Stage rs ps (s.step X S rs (.receive n)) got out := by
  rw [step]
  generalize hchunk : (s.connection.wire.drop s.taken).take n = chunk
  have hnext : s.connection.wire.take s.taken ++ chunk = s.connection.wire.take (s.taken + chunk.length) := by
    rw [← hchunk, List.take_add, List.length_take, ← List.take_eq_take_min]
  have hle : s.taken + chunk.length ≤ s.connection.wire.length := by
    rw [← hchunk, List.length_take, List.length_drop]
    have := h.taken
    omega
  -- the client decodes every response that is complete now
  have hfeed : feed readResponse id s.client chunk =
      responseCodec.after ps (responseCodec.completed ps (s.taken + chunk.length))
        (s.connection.wire.take (s.taken + chunk.length)) := by
    have hp : s.connection.wire.take s.taken ++ chunk <+: responseCodec.stream ps := by
      rw [hnext]
      exact (List.take_prefix _ _).trans h.wire_initial
    have hcomplete := responseCodec.feed_complete hp
    rw [List.length_take_of_le h.taken, ← h.client, hnext, List.length_take_of_le hle] at hcomplete
    exact hcomplete
  have hlen : s.client.1.length ≤ (feed readResponse id s.client chunk).1.length := by
    rw [feed, List.length_append]
    exact Nat.le_add_right _ _
  exact ⟨h.flight, h.server, h.out_le, h.wire, h.queue, h.interest, hle, hfeed, h.sent,
    Nat.le_trans h.waits (Nat.succ_le_succ hlen)⟩

theorem stream_eq (ps : List FramedResponse) :
    responseBytes (ps.map Subtype.val) = responseCodec.stream ps := by
  rw [responseBytes, List.flatMap_map, Codec.stream, List.flatMap_def]
  rfl

theorem Stage.writable {got : Bytes} {out : Nat} (h : Stage rs ps s got out) {results : List SendResult}
    (hw : WholeSends s.connection.responseQueue results) :
    ∃ k ≤ s.connection.responseQueue.length, Stage rs ps (s.step X S rs (.writable results)) got (out + k) ∧
      ((∃ n rest, results = .accepted n :: rest) → s.connection.responseQueue ≠ [] → 0 < k) := by
  obtain ⟨k, hk, hsent, hpos⟩ := onWritable_sent results s.connection hw
  have hlen := congrArg List.length h.queue
  rw [List.length_map, List.length_drop, List.length_take] at hlen
  have hout := h.out_le
  have hwire : s.connection.wire <+: (s.connection.onWritable results).wire := by
    rw [hsent.wire]
    exact List.prefix_append _ _
  refine ⟨k, hk, ⟨h.flight, ⟨hsent.readBuffer.trans h.server.1, ?_⟩, ?_, ?_, ?_, ?_, ?_, ?_, h.sent, h.waits⟩, hpos⟩
  · dsimp only [step]
    rw [hsent.handled]
    exact h.server.2
  · dsimp only [step]
    rw [hsent.handled]
    omega
  · -- the responses that left the queue are the next ones
    dsimp only [step]
    rw [hsent.wire, h.wire, h.queue, ← List.map_take, stream_eq, ← Codec.stream_append, List.take_add,
      List.drop_take, List.take_take, Nat.min_eq_left (by omega)]
  · dsimp only [step]
    rw [hsent.queue, hsent.handled, h.queue, ← List.map_drop, List.drop_drop]
  · exact hsent.armed h.interest
  · exact Nat.le_trans h.taken hwire.length_le
  · dsimp only [step]
    rw [h.client, hsent.wire, List.take_append_of_le_length h.taken]

/-- What is queued for the request that is handed over next. -/
theorem queued_next (ha : AnswersAll S rs ps)
    {handled : List HttpRequest} {request : HttpRequest} {n : Nat} (hn : n ≤ rs.length)
    (hh : (handled ++ [request]).map Except.ok = ((rs.take n).map PlainRequest.text).map (parse X)) :
    n = handled.length + 1 ∧ ∃ p ran, ps[handled.length]? = some p ∧ S.handleRead request = .queued ran p.1 := by
  have hlen : n = handled.length + 1 := by
    have h := congrArg List.length hh
    simp only [List.length_map, List.length_append, List.length_singleton, List.length_take] at h
    omega
  have hr : handled.length < rs.length := by omega
  have hp : handled.length < ps.length := by rwa [← ha.length_eq]
  have hparse : parse X (rs.get ⟨handled.length, hr⟩).text = .ok request := by
    have h := congrArg (fun l => l[handled.length]?) hh
    simp only [List.getElem?_map, List.getElem?_append_right (Nat.le_refl _), Nat.sub_self,
      List.getElem?_take_of_lt (show handled.length < n by omega), List.getElem?_eq_getElem hr] at h
    exact (Option.some.inj h).symm
  obtain ⟨request', ran, hp', hq⟩ := (List.forall₂_iff_get.mp ha).2 handled.length hr hp
  rw [hparse] at hp'
  cases hp'
  exact ⟨hlen, _, ran, List.getElem?_eq_getElem hp, hq⟩

/-- What the server decodes at most is one request more. -/
theorem Stage.readable {got : Bytes} {out : Nat} (h : Stage rs ps s got out)
    (ha : AnswersAll S rs ps)
    {batch : List Bytes} (hb : batch.flatten <+: s.flight) :
    Stage rs ps (s.step X S rs (.readable batch)) (got ++ batch.flatten) out := by
  obtain ⟨rest, hrest⟩ := hb
  have hflight : got ++ batch.flatten ++ s.flight.drop batch.flatten.length =
      (requestCodec X).stream (rs.take s.sent) := by
    rw [← h.flight, ← hrest, List.drop_left, List.append_assoc]
  have hp : got ++ batch.flatten <+: (requestCodec X).stream rs := by
    refine List.IsPrefix.trans ?_ ((requestCodec X).stream_take_initial rs s.sent)
    rw [← hflight]
    exact List.prefix_append _ _
  have hone : (requestCodec X).completed rs (got ++ batch.flatten).length ≤
      (requestCodec X).completed rs got.length + 1 := by
    have hlen := congrArg List.length hflight
    rw [List.length_append] at hlen
    have hmono := (requestCodec X).completed_mono rs (Nat.le.intro hlen)
    rw [(requestCodec X).completed_take h.sent] at hmono
    have := h.waits
    have := h.client_le ha
    have := h.out_le
    have := h.handled_eq
    omega
  have hfeed := (requestCodec X).feed_after (fun _ => 1) hp (Nat.le_refl _)
  rw [Nat.min_eq_right hone] at hfeed
  have hsim := readStep_simulates X S h.server batch fun text ht => by
    rw [show feed cutDec = feed (requestCodec X).dec from rfl, hfeed] at ht
    obtain ⟨r, -, rfl⟩ := List.mem_map.mp ht
    exact r.parse_text
  rw [show feed cutDec = feed (requestCodec X).dec from rfl, hfeed] at hsim
  rw [step, if_pos ⟨rest, hrest⟩]
  rcases readStep_cases X S s.connection ⟨batch, .eagain⟩ with hc | ⟨request, hc⟩
  · -- nothing is handed over
    refine ⟨hflight, hsim, ?_, ?_, ?_, ?_, ?_, ?_, h.sent, h.waits⟩
    · rw [hc]; exact h.out_le
    · rw [hc]; exact h.wire
    · rw [hc]; exact h.queue
    · rw [hc]; exact h.interest
    · rw [hc]; exact h.taken
    · rw [hc]; exact h.client
  · -- the next request is handed over
    have hh := hsim.2
    rw [hc, HttpConnection.handleRead_handled] at hh
    obtain ⟨hlen, p, ran, hp, hq⟩ := queued_next ha ((requestCodec X).completed_le_length rs _) hh
    have hlt : s.connection.handled.length < ps.length := (List.getElem?_eq_some_iff.mp hp).1
    rw [HttpConnection.handleRead, hq] at hc
    refine ⟨hflight, hsim, ?_, ?_, ?_, ?_, ?_, ?_, h.sent, h.waits⟩
    · rw [hc]
      exact Nat.le_trans h.out_le (by simp [HttpConnection.answer])
    · rw [hc]; exact h.wire
    · rw [hc]
      simp only [HttpConnection.answer, List.length_append, List.length_singleton]
      rw [h.queue, List.take_add_one, hp, Option.toList_some, List.drop_append_of_le_length, List.map_append]
      · rfl
      · rw [List.length_take]
        have := h.out_le
        omega
    · rw [hc]
      exact (if_neg (List.append_ne_nil_of_right_ne_nil _ (List.cons_ne_nil _ _))).symm
    · rw [hc]; exact h.taken
    · rw [hc]; exact h.client

/-! ## Runs -/

theorem inv_step (ha : AnswersAll S rs ps)
    (s : KeepAlive) (o : KeepAliveOp) (h : Inv rs ps s) (hw : SendsWhole s o) : Inv rs ps (s.step X S rs o) := by
  obtain ⟨got, out, h⟩ := h
  cases o with
  | send =>
    rw [step]
    cases hr : rs[s.sent]? with
    | none => exact ⟨got, out, h⟩
    | some r => exact or_stay ⟨got, out, h⟩ fun hlen => ⟨got, out, h.send hr hlen⟩
  | readable batch =>
    by_cases hb : batch.flatten <+: s.flight
    · exact ⟨_, out, h.readable ha hb⟩
    · rw [step, if_neg hb]
      exact ⟨got, out, h⟩
  | writable results =>
    obtain ⟨k, -, h', -⟩ := h.writable hw
    exact ⟨got, out + k, h'⟩
  | receive n => exact ⟨got, out, h.receive n⟩

/-- The client read the first answers, the server got the first requests, and
neither is more than one ahead. -/
structure InStep (rs : List (PlainRequest X)) (ps : List FramedResponse) (s : KeepAlive) :
    Prop where
  answers : s.client.1 = (ps.take s.client.1.length).map fun p => p.1.seen
  requests : s.connection.handled.map Except.ok = (rs.take s.connection.handled.length).map fun r => parse X r.text
  answered : s.client.1.length ≤ s.connection.handled.length
  handled : s.connection.handled.length ≤ s.sent
  waits : s.sent ≤ s.client.1.length + 1

theorem Inv.inStep (ha : AnswersAll S rs ps)
    (h : Inv rs ps s) : InStep rs ps s := by
  obtain ⟨got, out, h⟩ := h
  refine ⟨?_, ?_, Nat.le_trans (h.client_le ha) h.out_le, h.handled_le, h.waits⟩
  · rw [h.client_length]
    exact h.client_eq
  · rw [h.server.2, h.handled_eq]
    exact List.map_map

/-- **A client that waits** reads the answers to its requests in order, and the
server handles each request once, however both directions are cut. -/
theorem keepAlive_sound
    (ha : AnswersAll S rs ps) {ops : List KeepAliveOp} (hw : EachStep (step X S rs) SendsWhole {} ops) :
    InStep rs ps (run (step X S rs) {} ops) :=
  (always_of_inv (step X S rs) (inv_step ha) inv_start (fun _ => Inv.inStep ha) hw).last

/-- The answer of a server without routes. -/
def rootAnswer : FramedResponse :=
  ⟨.notFound (bytes "Route not found"), by decide, fun _ hp => absurd hp (List.not_mem_nil),
    fun _ hp => absurd hp (List.not_mem_nil)⟩

theorem answers_getRoot : Answers (.new {} none) getRoot rootAnswer.1 :=
  ⟨{ method := .GET, path := bytes "/", version := bytes "HTTP/1.1",
     headers := AList.singleton (bytes "Content-Length") (bytes "0") }, none, by rfl, by rfl⟩

/-- The request comes in two pieces, the response too. -/
def rootOps : List KeepAliveOp :=
  [.send, .readable [getRoot.text.take 20], .readable [getRoot.text.drop 20], .writable [.accepted 1000],
    .receive 30, .receive 1000]

theorem keepAlive_sound_get :
    InStep [getRoot, getRoot] [rootAnswer, rootAnswer] (run (step _ (.new {} none) [getRoot, getRoot]) {} rootOps) ∧
      (run (step _ (.new {} none) [getRoot, getRoot]) {} rootOps).client.1 = [rootAnswer.1.seen] :=
  ⟨keepAlive_sound (.cons answers_getRoot (.cons answers_getRoot .nil)) (by decide), by decide⟩

/-! ## It comes to an end -/

/-- What the client, the events and the network still have to do. -/
def Due (rs : List (PlainRequest X)) (s : KeepAlive) : KeepAliveOp → Prop
  | .send => s.client.1.length = s.sent ∧ s.sent < rs.length
  | .readable batch => s.connection.interest = .epollin ∧ batch.flatten ≠ [] ∧ batch.flatten <+: s.flight
  | .writable results => s.connection.interest = .epollout ∧ ∃ n rest, results = .accepted n :: rest
  | .receive n => 0 < n ∧ s.taken < s.connection.wire.length

instance (rs : List (PlainRequest X)) (s : KeepAlive) : (o : KeepAliveOp) → Decidable (Due rs s o)
  | .send => inferInstanceAs (Decidable (_ ∧ _))
  | .readable _ => inferInstanceAs (Decidable (_ ∧ _ ∧ _))
  | .receive _ => inferInstanceAs (Decidable (_ ∧ _))
  | .writable (.accepted n :: rest) => decidable_of_iff (s.connection.interest = .epollout) (by simp [Due])
  | .writable [] => isFalse (by simp [Due])
  | .writable (.eagain :: _) => isFalse (by simp [Due])
  | .writable (.error :: _) => isFalse (by simp [Due])

/-- Requests to send and bytes of them to read, responses to write and bytes
of them to receive. -/
def work (rs : List (PlainRequest X)) (ps : List FramedResponse) (s : KeepAlive) : Nat :=
  (rs.length - s.sent) +
    (((requestCodec X).stream rs).length - (((requestCodec X).stream (rs.take s.sent)).length - s.flight.length)) +
    (rs.length - (s.connection.handled.length - s.connection.responseQueue.length)) +
    ((responseCodec.stream ps).length - s.taken)

theorem Stage.flight_le {got : Bytes} {out : Nat} (h : Stage rs ps s got out) :
    s.flight.length + got.length = ((requestCodec X).stream (rs.take s.sent)).length ∧
      ((requestCodec X).stream (rs.take s.sent)).length ≤ ((requestCodec X).stream rs).length := by
  have hlen := congrArg List.length h.flight
  rw [List.length_append] at hlen
  exact ⟨by omega, ((requestCodec X).stream_take_initial rs s.sent).length_le⟩

theorem readStep_lengths (X : Externals) (S : ZvejysServer) (c : HttpConnection) (d : Drain) :
    c.handled.length - c.responseQueue.length ≤
      (c.readStep X S d).handled.length - (c.readStep X S d).responseQueue.length := by
  rcases readStep_cases X S c d with hc | ⟨request, hc⟩
  · rw [hc]
  · rw [hc, HttpConnection.handleRead]
    cases S.handleRead request with
    | queued ran response =>
      simp only [HttpConnection.answer, List.length_append, List.length_singleton]
      omega
    | switching handshake upgraded =>
      simp only [HttpConnection.answer, List.length_append, List.length_singleton]
      omega

theorem work_step (ha : AnswersAll S rs ps)
    (s : KeepAlive) (o : KeepAliveOp) (h : Inv rs ps s) (hd : SendsWhole s o ∧ Due rs s o) :
    Inv rs ps (s.step X S rs o) ∧ work rs ps (s.step X S rs o) < work rs ps s := by
  obtain ⟨hw, hd⟩ := hd
  refine ⟨inv_step ha s o h hw, ?_⟩
  obtain ⟨got, out, h⟩ := h
  obtain ⟨hflight, hle⟩ := h.flight_le
  cases o with
  | send =>
    obtain ⟨hlen, hlt⟩ := hd
    have htake : ((requestCodec X).stream (rs.take (s.sent + 1))).length =
        ((requestCodec X).stream (rs.take s.sent)).length + rs[s.sent].text.length := by
      rw [List.take_succ_eq_append_getElem hlt, Codec.stream_append, List.length_append]
      simp only [Codec.stream_cons, Codec.stream_nil, List.append_nil]
      rfl
    rw [step, List.getElem?_eq_getElem hlt]
    simp only [if_pos hlen, work, htake, List.length_append]
    omega
  | readable batch =>
    obtain ⟨-, hne, hb⟩ := hd
    have hpos := List.length_pos_of_ne_nil hne
    have hble := hb.length_le
    have hread := readStep_lengths X S s.connection ⟨batch, .eagain⟩
    rw [step, if_pos hb]
    simp only [work, List.length_drop]
    omega
  | writable results =>
    obtain ⟨hi, hacc⟩ := hd
    have hne : s.connection.responseQueue ≠ [] := by
      intro hq
      rw [h.interest, if_pos hq] at hi
      cases hi
    obtain ⟨k, hk, hsent, hpos⟩ := onWritable_sent results s.connection hw
    have hpos := hpos hacc hne
    have hlen := congrArg List.length h.queue
    rw [List.length_map, List.length_drop, List.length_take] at hlen
    have hhandled := h.handled_le
    have hs := h.sent
    simp only [step, work, hsent.handled, hsent.queue, List.length_drop]
    omega
  | receive n =>
    obtain ⟨hn, hlt⟩ := hd
    have hwire := h.wire_initial.length_le
    simp only [step, work, List.length_take, List.length_drop]
    omega

/-- A queue waits for a writable socket, and a whole send takes its front. -/
theorem queue_of_idle (hi : s.connection.interest = if s.connection.responseQueue = [] then .epollin else .epollout)
    (hd : ∀ o, ¬ (SendsWhole s o ∧ Due rs s o)) : s.connection.responseQueue = [] := by
  by_contra hq
  obtain ⟨response, queue, hr⟩ := List.exists_cons_of_ne_nil hq
  refine hd (.writable [.accepted (serializeResponse response).length]) ⟨?_, ?_, _, _, rfl⟩
  · rw [SendsWhole, hr]
    exact ⟨Nat.le_refl _, by cases queue <;> trivial⟩
  · rw [hi, if_neg hq]

/-- Where nothing is due, everything is answered. -/
theorem Inv.all_answered (ha : AnswersAll S rs ps) (h : Inv rs ps s)
    (hd : ∀ o, ¬ (SendsWhole s o ∧ Due rs s o)) : s.client.1 = ps.map fun p => p.1.seen := by
  obtain ⟨got, out, h⟩ := h
  have hqueue := queue_of_idle h.interest hd
  have hflight : s.flight = [] := by
    by_contra hne
    refine hd (.readable [s.flight]) ⟨trivial, ?_, ?_, ?_⟩
    · rw [h.interest, if_pos hqueue]
    · rwa [List.flatten_singleton]
    · rw [List.flatten_singleton]
  have htaken : s.taken = s.connection.wire.length := by
    by_contra hne
    exact hd (.receive 1) ⟨trivial, Nat.one_pos, by have := h.taken; omega⟩
  -- so the server has read what was sent, and has written what it handled
  have hhandled : s.connection.handled.length = s.sent := by
    have hgot := h.flight
    rw [hflight, List.append_nil] at hgot
    rw [h.handled_eq, hgot, (requestCodec X).completed_take h.sent]
  have hout : out = s.sent := by
    have hlen := congrArg List.length h.queue
    rw [hqueue, List.length_nil, List.length_map, List.length_drop, List.length_take] at hlen
    have := h.out_le
    have := h.sent
    have := ha.length_eq
    omega
  have hclient : responseCodec.completed ps s.taken = s.sent := by
    rw [htaken, h.wire, hout]
    exact responseCodec.completed_take (by rw [← hout]; exact h.out_le_length ha)
  have hall : s.sent = ps.length := by
    rw [← ha.length_eq]
    by_contra hne
    exact hd .send ⟨trivial, h.client_length.trans hclient, by have := h.sent; omega⟩
  rw [h.client_eq, hclient, hall, List.take_length]
  rfl

theorem work_le (rs : List (PlainRequest X)) (ps : List FramedResponse) (s : KeepAlive) :
    work rs ps s ≤ 2 * rs.length + ((rs.map PlainRequest.text).flatten).length +
      (responseBytes (ps.map Subtype.val)).length := by
  have hrs : (requestCodec X).stream rs = (rs.map PlainRequest.text).flatten := rfl
  rw [work, stream_eq, hrs]
  omega

/-- **It comes to an end.** From every state a run of what is due is bounded,
and where nothing is due, every request is answered. -/
theorem keepAlive_finishes
    (ha : AnswersAll S rs ps) {ops more : List KeepAliveOp} (hw : EachStep (step X S rs) SendsWhole {} ops)
    (hmore : EachStep (step X S rs) (fun s o => SendsWhole s o ∧ Due rs s o) (run (step X S rs) {} ops) more) :
    more.length ≤ 2 * rs.length + ((rs.map PlainRequest.text).flatten).length +
        (responseBytes (ps.map Subtype.val)).length ∧
      ((∀ o, ¬ (SendsWhole (run (step X S rs) {} (ops ++ more)) o ∧ Due rs (run (step X S rs) {} (ops ++ more)) o)) →
        (run (step X S rs) {} (ops ++ more)).client.1 = ps.map fun p => p.1.seen) := by
  have hinv : Inv rs ps (run (step X S rs) {} ops) :=
    (always_of_inv (step X S rs) (inv_step ha) inv_start (fun _ h => h) hw).last
  constructor
  · exact Nat.le_trans (length_le_measure (step X S rs) (work_step ha) hinv hmore) (work_le rs ps _)
  · intro hd
    have hend : Inv rs ps (run (step X S rs) {} (ops ++ more)) := by
      rw [run_append]
      exact (always_of_inv (step X S rs) (inv_step ha) hinv (fun _ h => h) fun pre o hp => (hmore pre o hp).1).last
    exact hend.all_answered ha hd

theorem rootOps_all (o : KeepAliveOp) : ¬ (SendsWhole (run (step _ (.new {} none) [getRoot]) {} rootOps) o ∧
    Due [getRoot] (run (step _ (.new {} none) [getRoot]) {} rootOps) o) := by
  rintro ⟨-, hd⟩
  cases o with
  | send => exact absurd hd.2 (by decide)
  | readable batch => exact hd.2.1 (List.prefix_nil.mp hd.2.2)
  | writable results => exact absurd hd.1 (by decide)
  | receive n => exact absurd hd.2 (by decide)

theorem keepAlive_finishes_get : rootOps.length ≤ 200 ∧
    (run (step _ (.new {} none) [getRoot]) {} rootOps).client.1 = [rootAnswer.1.seen] :=
  have h := keepAlive_finishes (S := .new {} none) (.cons answers_getRoot .nil) (eachStep_nil _ _ _)
    (show EachStep _ _ _ rootOps by decide)
  ⟨Nat.le_trans h.1 (by decide), h.2 rootOps_all⟩

end Ryklys.KeepAlive
