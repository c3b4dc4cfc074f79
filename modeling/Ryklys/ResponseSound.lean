import Ryklys.HttpConnection
import Ryklys.Runs

/-!
# Writing responses

`OnWritable` pops a response after any successful `send`, however many bytes
the socket took. What the socket has and what is still queued therefore add up
to everything queued exactly as long as each `send` takes a whole response
(`pending_onWritable`), and only then does the queue drain without loss
(`responses_lossless_iff`).
-/

namespace Ryklys

open Runs

def responseBytes (responses : List HttpResponse) : Bytes := responses.flatMap serializeResponse

inductive WriteOp where
  | queue (response : HttpResponse)
  | writable (results : List SendResult)

structure Writing where
  connection : HttpConnection
  queued : List HttpResponse

def Writing.start (queue : List HttpResponse) : Writing := ⟨{ responseQueue := queue }, queue⟩

def Writing.step (s : Writing) : WriteOp → Writing
  | .queue response => ⟨s.connection.answer (.queued none response), s.queued ++ [response]⟩
  | .writable results => ⟨s.connection.onWritable results, s.queued⟩

/-- The socket has only bytes of the queued responses in their order, and all
of them once the queue is empty. -/
def Lossless (s : Writing) : Prop :=
  s.connection.wire <+: responseBytes s.queued ∧
    (s.connection.responseQueue = [] → s.connection.wire = responseBytes s.queued)

/-- Every `send` of the call that succeeds takes the whole response at the
front of the queue then. -/
def WholeSends : List HttpResponse → List SendResult → Prop
  | response :: queue, .accepted n :: results =>
    (serializeResponse response).length ≤ n ∧ WholeSends queue results
  | _, _ => True

def TakesWhole (s : Writing) : WriteOp → Prop
  | .queue _ => True
  | .writable results => WholeSends s.connection.responseQueue results

theorem one_lt_length (response : HttpResponse) : 1 < (serializeResponse response).length := by
  have : (bytes "HTTP/1.1 ").length = 9 := by decide
  simp only [serializeResponse, List.length_append]
  omega

/-! ## One call -/

theorem onWritable_accepted {c : HttpConnection} {response : HttpResponse} {queue : List HttpResponse}
    (hq : c.responseQueue = response :: queue) (n : Nat) (results : List SendResult) :
    c.onWritable (.accepted n :: results) = HttpConnection.onWritable
      { c with
        responseQueue := queue
        wire := c.wire ++ (serializeResponse response).take (acceptCount n (serializeResponse response).length) }
      results := by
  rw [HttpConnection.onWritable, hq]

theorem onWritable_stopped (c : HttpConnection) (results : List SendResult)
    (h : c.responseQueue = [] ∨ ∀ n rest, results ≠ .accepted n :: rest) :
    (c.onWritable results).wire = c.wire ∧ (c.onWritable results).responseQueue = c.responseQueue := by
  rcases results with _ | ⟨_ | _ | _, rest⟩ <;> unfold HttpConnection.onWritable <;> split <;> simp_all

def HttpConnection.pending (c : HttpConnection) : Nat := c.wire.length + (responseBytes c.responseQueue).length

theorem pending_take {c : HttpConnection} {response : HttpResponse} {queue : List HttpResponse}
    (hq : c.responseQueue = response :: queue) {k : Nat} (hk : k ≤ (serializeResponse response).length) :
    ({ c with responseQueue := queue, wire := c.wire ++ (serializeResponse response).take k } :
      HttpConnection).pending + ((serializeResponse response).length - k) = c.pending := by
  simp only [HttpConnection.pending, hq, responseBytes, List.flatMap_cons, List.length_append, List.length_take,
    Nat.min_eq_left hk]
  omega

theorem wholeSends_stopped {queue : List HttpResponse} {results : List SendResult}
    (h : queue = [] ∨ ∀ n rest, results ≠ .accepted n :: rest) : WholeSends queue results := by
  rcases queue with _ | ⟨response, queue⟩ <;> rcases results with _ | ⟨_ | _ | _, rest⟩ <;> simp_all [WholeSends]

theorem accepts_or_stops (queue : List HttpResponse) (results : List SendResult) :
    (queue = [] ∨ ∀ n rest, results ≠ .accepted n :: rest) ∨
      ∃ response queue' n rest, queue = response :: queue' ∧ results = .accepted n :: rest := by
  rcases queue with _ | ⟨response, queue⟩ <;> rcases results with _ | ⟨_ | _ | _, rest⟩ <;> simp

/-- A call never gains bytes, and loses none exactly when its sends are whole. -/
theorem pending_onWritable (results : List SendResult) : ∀ c : HttpConnection,
    (c.onWritable results).pending ≤ c.pending ∧
      ((c.onWritable results).pending = c.pending ↔ WholeSends c.responseQueue results) := by
  induction results with
  | nil =>
    intro c
    obtain ⟨hw, hq⟩ := onWritable_stopped c [] (Or.inr (by simp))
    simp [HttpConnection.pending, hw, hq, wholeSends_stopped]
  | cons result results ih =>
    intro c
    rcases accepts_or_stops c.responseQueue (result :: results) with hs | ⟨response, queue, n, rest, hq, hr⟩
    · obtain ⟨hw, hq⟩ := onWritable_stopped c _ hs
      simp [HttpConnection.pending, hw, hq, wholeSends_stopped hs]
    · obtain ⟨rfl, rfl⟩ := List.cons.inj hr
      have hpos := one_lt_length response
      have hk : acceptCount n (serializeResponse response).length ≤ (serializeResponse response).length := by
        unfold acceptCount; omega
      have hfull : acceptCount n (serializeResponse response).length = (serializeResponse response).length ↔
          (serializeResponse response).length ≤ n := by
        unfold acceptCount; omega
      have hcost := pending_take hq hk
      rw [onWritable_accepted hq, hq, WholeSends, ← hfull]
      obtain ⟨hle, hiff⟩ := ih { c with
        responseQueue := queue
        wire := c.wire ++ (serializeResponse response).take (acceptCount n (serializeResponse response).length) }
      rw [← hiff]
      refine ⟨by omega, fun h => ⟨by omega, by omega⟩, fun ⟨hn, h⟩ => by omega⟩

theorem onWritable_whole (results : List SendResult) : ∀ c : HttpConnection, WholeSends c.responseQueue results →
    (c.onWritable results).wire ++ responseBytes (c.onWritable results).responseQueue =
      c.wire ++ responseBytes c.responseQueue := by
  induction results with
  | nil =>
    intro c _
    obtain ⟨hw, hq⟩ := onWritable_stopped c [] (Or.inr (by simp))
    rw [hw, hq]
  | cons result results ih =>
    intro c h
    rcases accepts_or_stops c.responseQueue (result :: results) with hs | ⟨response, queue, n, rest, hq, hr⟩
    · obtain ⟨hw, hq⟩ := onWritable_stopped c _ hs
      rw [hw, hq]
    · obtain ⟨rfl, rfl⟩ := List.cons.inj hr
      rw [hq] at h ⊢
      obtain ⟨hn, h⟩ := h
      have hpos := one_lt_length response
      rw [onWritable_accepted hq, ih _ h, show acceptCount n (serializeResponse response).length =
        (serializeResponse response).length by unfold acceptCount; omega]
      simp only [List.take_length, responseBytes, List.flatMap_cons, List.append_assoc]

/-! ## Runs -/

def Intact (s : Writing) : Prop :=
  s.connection.wire ++ responseBytes s.connection.responseQueue = responseBytes s.queued

theorem Intact.lossless {s : Writing} (h : Intact s) : Lossless s :=
  ⟨⟨_, h⟩, fun hq => by rw [← h, hq]; simp [responseBytes]⟩

theorem intact_start (queue : List HttpResponse) : Intact (.start queue) := by
  simp [Intact, Writing.start]

theorem intact_step (s : Writing) (o : WriteOp) (h : Intact s) (ho : TakesWhole s o) : Intact (s.step o) := by
  cases o with
  | queue response =>
    simp only [Intact, Writing.step, HttpConnection.answer, responseBytes, List.flatMap_append] at h ⊢
    rw [← List.append_assoc, h]
  | writable results => exact (onWritable_whole results s.connection ho).trans h

def Writing.lost (s : Writing) : Nat := (responseBytes s.queued).length - s.connection.pending

theorem pending_le (s : Writing) (o : WriteOp) (h : s.connection.pending ≤ (responseBytes s.queued).length) :
    (s.step o).connection.pending ≤ (responseBytes (s.step o).queued).length := by
  cases o with
  | queue response =>
    simp only [HttpConnection.pending, Writing.step, HttpConnection.answer, responseBytes, List.flatMap_append,
      List.length_append] at h ⊢
    omega
  | writable results => exact Nat.le_trans (pending_onWritable results s.connection).1 h

/-- Bytes once lost stay lost, and a step that loses none is whole. -/
theorem lost_step (s : Writing) (o : WriteOp) (h : s.connection.pending ≤ (responseBytes s.queued).length)
    (h0 : (s.step o).lost = 0) : s.lost = 0 ∧ TakesWhole s o := by
  cases o with
  | queue response =>
    simp only [Writing.lost, HttpConnection.pending, Writing.step, HttpConnection.answer, responseBytes,
      List.flatMap_append, List.length_append] at h0 ⊢
    exact ⟨by omega, trivial⟩
  | writable results =>
    obtain ⟨hle, hiff⟩ := pending_onWritable results s.connection
    simp only [Writing.lost, Writing.step] at h0 ⊢
    exact ⟨by omega, hiff.mp (by omega)⟩

theorem eachStep_of_lost {s : Writing} {ops : List WriteOp}
    (h : s.connection.pending ≤ (responseBytes s.queued).length) (h0 : (run Writing.step s ops).lost = 0) :
    EachStep Writing.step TakesWhole s ops := by
  -- from the end of the run backwards: nothing lost at the end, so nothing before
  have hback : ∀ pre post : List WriteOp, pre ++ post = ops → (run Writing.step s pre).lost = 0 := by
    intro pre post
    induction post generalizing pre with
    | nil =>
      intro he
      subst he
      simpa using h0
    | cons o post ih =>
      intro he
      have hn := ih (pre ++ [o]) (by rw [← he, List.append_assoc]; rfl)
      rw [run_snoc] at hn
      exact (lost_step _ _ (invariant Writing.step pending_le pre h) hn).1
  intro pre o ⟨post, he⟩
  have hn := hback (pre ++ [o]) post he
  rw [run_snoc] at hn
  exact (lost_step _ _ (invariant Writing.step pending_le pre h) hn).2

/-- **Responses.** A run whose sends are all whole loses nothing in any state;
and a run that empties the queue loses nothing only if all its sends are whole. -/
theorem responses_lossless_iff (queue : List HttpResponse) (ops : List WriteOp) :
    (EachStep Writing.step TakesWhole (.start queue) ops → Always Writing.step Lossless (.start queue) ops) ∧
    ((run Writing.step (.start queue) ops).connection.responseQueue = [] →
      (Always Writing.step Lossless (.start queue) ops ↔
        EachStep Writing.step TakesWhole (.start queue) ops)) := by
  have hmp : EachStep Writing.step TakesWhole (.start queue) ops →
      Always Writing.step Lossless (.start queue) ops :=
    always_of_inv Writing.step intact_step (intact_start queue) fun _ => Intact.lossless
  refine ⟨hmp, fun hempty => ⟨fun h => ?_, hmp⟩⟩
  refine eachStep_of_lost (by simp [Writing.start, HttpConnection.pending]) ?_
  have := (h.last Writing.step).2 hempty
  simp only [Writing.lost, HttpConnection.pending, this]
  omega

theorem responses_not_lossless :
    ¬ Always Writing.step Lossless (.start [.noContent]) [.writable [.accepted 1]] := fun h =>
  absurd (congrArg List.length ((h.last Writing.step).2 rfl)) (by decide)

end Ryklys
