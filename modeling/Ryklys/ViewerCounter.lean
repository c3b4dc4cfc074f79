import Mathlib.Algebra.BigOperators.Fin
import Mathlib.Algebra.Order.BigOperators.Group.Finset
import Ryklys.Runs
import Ryklys.ViewerRegistry

/-!
# The viewer counter

The joins, leaves and stream ends of several nodes that share one Redis. Each
access of a registry or of Redis is a step; what an operation has still to do
is a task. Viewers are numbered in the order in which they join.
-/

namespace Ryklys

/-- What is left of an operation. `removed` says whether the leave's `Remove`
found its viewer, and `closed` how many viewers the stream end's `CloseAll` took. -/
inductive CounterTask (N : Nat) where
  | incr (node : Fin N) (streamId : Bytes) (ws : Nat)
  | install (node : Fin N) (streamId : Bytes) (ws : Nat)
  | decr (streamId : Bytes) (removed : Bool)
  | setZero (streamId : Bytes)
  | reset (streamId : Bytes) (closed : Nat)
  deriving DecidableEq

instance (N : Nat) : LawfulBEq (CounterTask N) := inferInstance

/-- `viewers` is the value of `viewers:<streamId>`, 0 where there is no key. -/
structure Cluster (N : Nat) where
  registry : Fin N → ViewerRegistry Nat := fun _ => {}
  viewers : Bytes → Int := fun _ => 0
  tasks : List (CounterTask N) := []
  -- viewers that have `on_close_`
  installed : List (Fin N × Bytes × Nat) := []
  joined : Nat := 0

inductive CounterOp (N : Nat) where
  | join (node : Fin N) (streamId : Bytes)
  -- a CLOSE frame of the viewer arrives
  | leave (node : Fin N) (streamId : Bytes) (ws : Nat)
  | streamEnd (node : Fin N) (streamId : Bytes)
  | task (t : CounterTask N)

namespace Cluster

variable {N : Nat} (s : Cluster N)

def setRegistry (node : Fin N) (r : ViewerRegistry Nat) : Cluster N :=
  { s with registry := Function.update s.registry node r }

def setViewers (streamId : Bytes) (v : Int) : Cluster N := { s with viewers := Function.update s.viewers streamId v }

def addTasks (ts : List (CounterTask N)) : Cluster N := { s with tasks := s.tasks ++ ts }

/-- The next step of an operation, taken off the list of tasks. -/
def perform : CounterTask N → Cluster N
  | .incr node streamId ws =>
    (s.setViewers streamId (s.viewers streamId + 1)).addTasks [.install node streamId ws]
  | .install node streamId ws => { s with installed := s.installed ++ [(node, streamId, ws)] }
  | .decr streamId _ =>
    let count := s.viewers streamId - 1
    (s.setViewers streamId count).addTasks (if count < 0 then [.setZero streamId] else [])
  | .setZero streamId => s.setViewers streamId 0
  | .reset streamId _ => s.setViewers streamId 0

def step : CounterOp N → Cluster N
  | .join node streamId =>
    -- without a streamId the viewer is closed at once
    if streamId ≠ [] then
      { s.setRegistry node ((s.registry node).add streamId s.joined) with joined := s.joined + 1 }.addTasks
        [.incr node streamId s.joined]
    else s
  | .leave node streamId ws =>
    if (node, streamId, ws) ∈ s.installed then
      (s.setRegistry node ((s.registry node).remove streamId ws)).addTasks
        [.decr streamId (decide (ws ∈ (s.registry node).members streamId))]
    else s
  | .streamEnd node streamId =>
    (s.setRegistry node ((s.registry node).closeAll streamId)).addTasks
      [.reset streamId ((s.registry node).count streamId)]
  | .task t => if t ∈ s.tasks then { s with tasks := s.tasks.erase t }.perform t else s

/-- The viewers of the stream in the registries of all nodes. -/
def total (streamId : Bytes) : Int := ∑ node, ((s.registry node).count streamId : Int)

end Cluster

end Ryklys
