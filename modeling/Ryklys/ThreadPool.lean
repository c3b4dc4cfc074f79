import Mathlib.Data.List.FinRange
import Mathlib.Logic.Function.Basic

/-!
# The thread pool

The vendored `dp::thread_pool` that both servers hand their events to. A worker
takes tasks from the front of its own queue, then steals one from the back of
another, and goes round while tasks are unassigned; `enqueue_task` hands a task
to the worker in front of the priority list. Each line that touches shared
state is a step, and the steps of the threads come in any order.
-/

namespace Ryklys

/-- What `release` makes of the counter; past its maximum all that is known of
it is that the next `acquire` goes through. -/
structure BinarySemaphore where
  release : Nat → Nat
  release_pos : ∀ count, 0 < release count

inductive WorkerPhase (τ : Type) where
  -- `signal.acquire()`
  | acquiring
  | popping
  -- has a task, of its own queue or a stolen one
  | popped (task : τ) (own : Bool)
  | invoking (task : τ) (own : Bool)
  | invoked (own : Bool)
  | stealing (j : Nat)
  -- `while (unassigned_tasks_ > 0)`
  | checking
  | rotating
  -- `in_flight_tasks_ == 0`
  | testing
  | completing

/-- A call of `enqueue_task`. -/
inductive EnqueuePhase (τ : Type) (n : Nat) where
  | idle
  | assigned (task : τ) (i : Fin n)
  | unassigned (task : τ) (i : Fin n)
  -- found no task in flight
  | resetting (task : τ) (i : Fin n)
  | pushing (task : τ) (i : Fin n)
  | releasing (i : Fin n)

structure ThreadPool (n : Nat) (ι τ : Type) where
  tasks : Fin n → List τ
  signal : Fin n → Nat
  priorityQueue : List (Fin n)
  unassignedTasks : Int
  inFlightTasks : Int
  threadsComplete : Bool
  worker : Fin n → WorkerPhase τ
  call : ι → EnqueuePhase τ n
  -- the calls of `enqueue_task`, the tasks invoked, the tasks no thread was there for
  enqueued : List τ
  invoked : List τ
  dropped : List τ

namespace ThreadPool

variable {n : Nat} {ι τ : Type}

def new : ThreadPool n ι τ where
  tasks := fun _ => []
  signal := fun _ => 0
  priorityQueue := List.finRange n
  unassignedTasks := 0
  inFlightTasks := 0
  threadsComplete := false
  worker := fun _ => .acquiring
  call := fun _ => .idle
  enqueued := []
  invoked := []
  dropped := []

/-- The `j`-th queue after that of thread `id`. -/
def victim (id : Fin n) (j : Nat) : Fin n := ⟨(id + j) % n, Nat.mod_lt _ id.pos⟩

def rotateToFront (queue : List (Fin n)) (item : Fin n) : List (Fin n) := item :: queue.erase item

variable (s : ThreadPool n ι τ)

def workerStep (id : Fin n) : ThreadPool n ι τ :=
  let goto (phase : WorkerPhase τ) := Function.update s.worker id phase
  match s.worker id with
  | .acquiring =>
    if 0 < s.signal id then
      { s with signal := Function.update s.signal id (s.signal id - 1), worker := goto .popping }
    else s
  | .popping =>
    match s.tasks id with
    | [] => { s with worker := goto (.stealing 1) }
    | task :: rest => { s with tasks := Function.update s.tasks id rest, worker := goto (.popped task true) }
  | .popped task own => { s with unassignedTasks := s.unassignedTasks - 1, worker := goto (.invoking task own) }
  | .invoking task own => { s with invoked := s.invoked ++ [task], worker := goto (.invoked own) }
  | .invoked own =>
    -- one stolen task is enough
    { s with inFlightTasks := s.inFlightTasks - 1, worker := goto (if own then .popping else .checking) }
  | .stealing j =>
    if j < n then
      match (s.tasks (victim id j)).getLast? with
      | some task =>
        { s with tasks := Function.update s.tasks (victim id j) (s.tasks (victim id j)).dropLast,
                 worker := goto (.popped task false) }
      | none => { s with worker := goto (.stealing (j + 1)) }
    else { s with worker := goto .checking }
  | .checking => { s with worker := goto (if 0 < s.unassignedTasks then .popping else .rotating) }
  | .rotating => { s with priorityQueue := rotateToFront s.priorityQueue id, worker := goto .testing }
  | .testing => { s with worker := goto (if s.inFlightTasks = 0 then .completing else .acquiring) }
  | .completing => { s with threadsComplete := true, worker := goto .acquiring }

variable [DecidableEq ι] (sem : BinarySemaphore)

def callStep (c : ι) : ThreadPool n ι τ :=
  let goto (phase : EnqueuePhase τ n) := Function.update s.call c phase
  match s.call c with
  | .idle => s
  | .assigned task i => { s with unassignedTasks := s.unassignedTasks + 1, call := goto (.unassigned task i) }
  | .unassigned task i =>
    { s with inFlightTasks := s.inFlightTasks + 1,
             call := goto (if s.inFlightTasks = 0 then .resetting task i else .pushing task i) }
  | .resetting task i => { s with threadsComplete := false, call := goto (.pushing task i) }
  | .pushing task i =>
    { s with tasks := Function.update s.tasks i (s.tasks i ++ [task]), call := goto (.releasing i) }
  | .releasing i => { s with signal := Function.update s.signal i (sem.release (s.signal i)), call := goto .idle }

/-- `enqueue_task`, up to the worker it takes: `copy_front_and_rotate_to_back()`. -/
def enqueue (c : ι) (task : τ) : ThreadPool n ι τ :=
  match s.call c with
  | .idle =>
    match s.priorityQueue with
    | [] => { s with enqueued := s.enqueued ++ [task], dropped := s.dropped ++ [task] }
    | i :: rest =>
      { s with enqueued := s.enqueued ++ [task], priorityQueue := rest ++ [i],
               call := Function.update s.call c (.assigned task i) }
  | _ => s

inductive Op (n : Nat) (ι τ : Type) where
  | worker (id : Fin n)
  | call (c : ι)
  | enqueue (c : ι) (task : τ)

def step (s : ThreadPool n ι τ) : Op n ι τ → ThreadPool n ι τ
  | .worker id => s.workerStep id
  | .call c => s.callStep sem c
  | .enqueue c task => s.enqueue c task

end ThreadPool

end Ryklys
