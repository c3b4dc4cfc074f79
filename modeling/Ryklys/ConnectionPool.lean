import Ryklys.Leases
import Ryklys.Runs

/-!
# PGPool and RedisPool

Both pools keep a queue of idle connections under a mutex; a lease takes the
front one when it is built and pushes it back when it is destroyed. What lies
between the locked parts are steps of their own, so leases of any number of
threads interleave. Connections are numbered in the order they are made.
-/

namespace Ryklys

open Runs

inductive LeasePhase where
  -- popped, not yet handed to the lease
  | acquiring
  -- found closed
  | dead
  -- the replacement threw; to be pushed back before the exception goes on
  | failed
  | held
  -- the destructor runs
  | releasing
  deriving DecidableEq, Repr

structure Pool where
  leases : Leases Nat Nat
  phase : Nat → LeasePhase
  made : Nat

namespace Pool

/-- `createPool`, and the constructor of `RedisPool`. -/
def create (size : Nat) : Pool where
  leases := { idle := List.range size, live := ∅, item := fun _ => 0 }
  phase := fun _ => .acquiring
  made := size

def held (s : Pool) : Finset Nat := s.leases.live.filter (s.phase · = .held)

/-- The leases in the middle of an acquire or a release. -/
def between (s : Pool) : Finset Nat := s.leases.live.filter (s.phase · ≠ .held)

def setPhase (s : Pool) (l : Nat) (phase : LeasePhase) : Pool := { s with phase := Function.update s.phase l phase }

def At (s : Pool) (l : Nat) (phase : LeasePhase) : Prop := l ∈ s.leases.live ∧ s.phase l = phase

instance (s : Pool) (l : Nat) (phase : LeasePhase) : Decidable (s.At l phase) := by unfold At; infer_instance

/-- The locked part of `connection` and `acquire`; the caller waits while the
queue is empty. -/
def pop (s : Pool) (l : Nat) : Pool :=
  match s.leases.idle with
  | [] => s
  | conn :: idle =>
    if l ∈ s.leases.live then s
    else { s with leases := s.leases.take l conn idle }.setPhase l .acquiring

/-- `freeConnection` and `release`. -/
def push (s : Pool) (l : Nat) : Pool := { s with leases := s.leases.handBack l }

/-- `make_shared<pqxx::connection>`. -/
def replace (s : Pool) (l : Nat) : Pool :=
  { s with leases := s.leases.exchange l s.made, made := s.made + 1 }.setPhase l .held

end Pool

/-! ## PGPool -/

inductive PGOp where
  | pop (l : Nat)
  | isOpen (l : Nat) (alive : Bool)
  | makeConnection (l : Nat) (throws : Bool)
  | destroy (l : Nat)
  | freeConnection (l : Nat)

/-- One step of a thread; a step whose lease is elsewhere is not taken. -/
def pgStep (s : Pool) : PGOp → Pool
  | .pop l => s.pop l
  | .isOpen l alive => if s.At l .acquiring then s.setPhase l (if alive then .held else .dead) else s
  | .makeConnection l throws =>
    if s.At l .dead then if throws then s.setPhase l .failed else s.replace l else s
  | .destroy l => if s.At l .held then s.setPhase l .releasing else s
  | .freeConnection l => if s.At l .failed ∨ s.At l .releasing then s.push l else s

/-! ## RedisPool -/

inductive RedisOp where
  | acquire (l : Nat)
  | construct (l : Nat)
  | destroy (l : Nat)
  | release (l : Nat)

def redisStep (s : Pool) : RedisOp → Pool
  | .acquire l => s.pop l
  | .construct l => if s.At l .acquiring then s.setPhase l .held else s
  | .destroy l => if s.At l .held then s.setPhase l .releasing else s
  | .release l => if s.At l .releasing then s.push l else s

end Ryklys
