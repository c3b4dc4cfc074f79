import Ryklys.Runs

/-!
# The listening socket and the two event loops

New connections come into the accept queue at any time and raise the edge of
the listening socket; `epoll_wait` reports the edge and clears it. The
backend's loop drains the queue at an event, StreamPocket's accepts one
connection. No connection is left waiting at the backend, and at StreamPocket
exactly in the runs in which every accept empties the queue or finds the edge
raised again (`noneWaiting_iff`).
-/

namespace Ryklys

open Runs

/-- `inHandler` from the report of the event on until the loop is through with it. -/
inductive LoopAt where
  | elsewhere
  | inHandler
  deriving DecidableEq, Repr

structure Listener where
  -- the accept queue, by the number of the connection
  queue : List Nat := []
  edge : Bool := false
  at_ : LoopAt := .elsewhere
  accepted : List Nat := []
  deriving DecidableEq, Repr

inductive ListenerOp where
  | arrival (client : Nat)
  -- the next step of the event loop
  | loop
  deriving DecidableEq, Repr

namespace Listener

variable (s : Listener)

def arrival (client : Nat) : Listener := { s with queue := s.queue ++ [client], edge := true }

/-- `epoll_wait`, as far as it concerns the listening socket. -/
def epollWait : Listener := if s.edge then { s with edge := false, at_ := .inHandler } else s

/-- Whether `HandleEpollNewConnection` returns a descriptor rather than -1. -/
def handleEpollNewConnection : Bool × Listener :=
  match s.queue with
  | [] => (false, s)
  | client :: queue => (true, { s with queue := queue, accepted := s.accepted ++ [client] })

def backendStep : ListenerOp → Listener
  | .arrival client => s.arrival client
  | .loop =>
    match s.at_ with
    | .elsewhere => s.epollWait
    | .inHandler =>
      let r := s.handleEpollNewConnection
      if r.1 then r.2 else { r.2 with at_ := .elsewhere }

def streamPocketStep : ListenerOp → Listener
  | .arrival client => s.arrival client
  | .loop =>
    match s.at_ with
    | .elsewhere => s.epollWait
    | .inHandler => { s.handleEpollNewConnection.2 with at_ := .elsewhere }

def NoneWaiting : Prop := s.at_ = .elsewhere → s.queue ≠ [] → s.edge = true

/-- An accept takes the last connection, or another one has come since the
event was reported. -/
def Drains (s : Listener) (op : ListenerOp) : Prop :=
  op = .loop → s.at_ = .inHandler → s.queue.length ≤ 1 ∨ s.edge = true

instance (op : ListenerOp) : Decidable (s.Drains op) := by unfold Drains; infer_instance

instance : Decidable s.NoneWaiting := by unfold NoneWaiting; infer_instance

variable {s}

theorem noneWaiting_arrival (client : Nat) : (s.arrival client).NoneWaiting := fun _ _ => rfl

theorem noneWaiting_epollWait (h : s.NoneWaiting) : s.epollWait.NoneWaiting := by
  unfold epollWait
  split
  · intro hat
    cases hat
  · exact h

theorem handleEpollNewConnection_nil (h : s.queue = []) : s.handleEpollNewConnection = (false, s) := by
  unfold handleEpollNewConnection
  split
  · rfl
  · rename_i hq
    rw [h] at hq
    cases hq

theorem handleEpollNewConnection_cons {client : Nat} {queue : List Nat} (h : s.queue = client :: queue) :
    s.handleEpollNewConnection = (true, { s with queue := queue, accepted := s.accepted ++ [client] }) := by
  unfold handleEpollNewConnection
  split
  · rename_i hq
    rw [h] at hq
    cases hq
  · rename_i hq
    rw [h] at hq
    cases hq
    rfl

theorem backendStep_noneWaiting (h : s.NoneWaiting) (op : ListenerOp) : (s.backendStep op).NoneWaiting := by
  cases op with
  | arrival client => exact noneWaiting_arrival client
  | loop =>
    cases hat : s.at_ with
    | elsewhere =>
      simp only [backendStep, hat]
      exact noneWaiting_epollWait h
    | inHandler =>
      simp only [backendStep, hat]
      cases hq : s.queue with
      | nil =>
        rw [handleEpollNewConnection_nil hq, if_neg (by simp)]
        intro _ hne
        exact absurd hq hne
      | cons client queue =>
        rw [handleEpollNewConnection_cons hq, if_pos rfl]
        intro hout
        exact absurd (hat.symm.trans hout) (by decide)

theorem streamPocketStep_noneWaiting_iff (h : s.NoneWaiting) (op : ListenerOp) :
    (s.streamPocketStep op).NoneWaiting ↔ s.Drains op := by
  cases op with
  | arrival client => exact ⟨fun _ hop => (nomatch hop), fun _ => noneWaiting_arrival client⟩
  | loop =>
    cases hat : s.at_ with
    | elsewhere =>
      simp only [streamPocketStep, hat]
      refine ⟨fun _ _ hin => ?_, fun _ => noneWaiting_epollWait h⟩
      rw [hat] at hin
      cases hin
    | inHandler =>
      simp only [streamPocketStep, hat]
      cases hq : s.queue with
      | nil =>
        rw [handleEpollNewConnection_nil hq]
        refine ⟨fun _ _ _ => Or.inl ?_, fun _ _ hne => absurd hq hne⟩
        rw [hq]
        exact Nat.zero_le _
      | cons client queue =>
        rw [handleEpollNewConnection_cons hq]
        simp only [NoneWaiting, Drains, hat, hq, true_implies, List.length_cons]
        cases queue with
        | nil => simp
        | cons => simp

/-- **Accepting.** No connection waits without the edge being raised: at the
backend in every run, at StreamPocket exactly in the runs in which every accept
takes the last connection or finds the edge raised again. -/
theorem noneWaiting_iff (ops : List ListenerOp) :
    Always backendStep NoneWaiting {} ops ∧
      (Always streamPocketStep NoneWaiting {} ops ↔ EachStep streamPocketStep Drains {} ops) := by
  have h0 : NoneWaiting {} := fun _ h => absurd rfl h
  constructor
  · intro pre _
    exact invariant backendStep (J := NoneWaiting) (fun _ op h => backendStep_noneWaiting h op) pre h0
  · exact always_iff streamPocketStep (J := fun _ => True) (fun _ _ _ => trivial)
      (fun _ op _ h => streamPocketStep_noneWaiting_iff h op) trivial h0

/-- Two connections in one burst: the second is left waiting. -/
theorem burst_waits :
    ¬ NoneWaiting (run streamPocketStep {} [.arrival 0, .arrival 1, .loop, .loop]) := by decide

end Listener

end Ryklys
