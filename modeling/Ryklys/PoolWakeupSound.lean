import Ryklys.PoolThreads

/-!
# The pools lose no wake-up

Each step of a thread is one of the steps of the monitor, so in every state of
every run a thread is blocked only as long as there is a notification to come
or an awakened thread for each idle connection (`pools_no_lost_wakeup`).
-/

namespace Ryklys

open Monitor Runs

variable {ι : Type}

namespace PoolThreads

theorem role_of_pc {s : PoolThreads ι} {t : ι} {pc : PoolAt} (h : (s.phase t).pc = pc) :
    PoolThread.role (s.phase t) = pc.role := congrArg PoolAt.role h

theorem role_looking (woken : Bool) :
    (PoolAt.looking woken).role = .holding ∨ (PoolAt.looking woken).role = .rechecking := by
  cases woken
  · exact Or.inl rfl
  · exact Or.inr rfl

variable [Fintype ι] [DecidableEq ι]

abbrev Inv (s : PoolThreads ι) : Prop := Monitor.Inv PoolThread.role s 0

variable {s : PoolThreads ι} {t : ι} (h : Inv s)
include h

theorem inv_call : Inv (s.call t) := by
  unfold call
  split
  · rename_i hpc
    exact h.keep (role_of_pc hpc).symm
  · exact h

theorem inv_lock : Inv (s.lock t) := by
  refine or_stay h fun hm => ?_
  split
  · rename_i hpc
    exact h.lock hm (Or.inl ⟨role_of_pc hpc, rfl⟩)
  · rename_i hpc
    exact h.lock hm (Or.inr ⟨role_of_pc hpc, rfl⟩)
  · rename_i conn hpc
    exact h.lock hm (Or.inl ⟨role_of_pc hpc, rfl⟩)
  · exact h

theorem inv_look : Inv (s.look t) := by
  unfold look
  split
  · rename_i woken hpc hi
    exact h.findNone ((role_of_pc hpc) ▸ role_looking woken) hi
  · rename_i woken conn items hpc hi
    exact h.take ((role_of_pc hpc) ▸ role_looking woken) rfl hi
  · exact h

theorem inv_wait : Inv (s.wait t) := by
  unfold wait
  split
  · rename_i hpc
    exact h.wait (role_of_pc hpc) rfl
  · exact h

theorem inv_spurious : Inv (s.spurious t) := by
  unfold spurious
  split
  · rename_i hpc
    exact h.spurious (role_of_pc hpc) rfl
  · exact h

theorem inv_construct : Inv (s.construct t) := by
  unfold construct
  split
  · rename_i conn hpc
    exact h.keep (role_of_pc hpc).symm
  · exact h

theorem inv_isOpen (alive : Bool) : Inv (s.isOpen t alive) := by
  unfold isOpen
  split
  · exact inv_construct h
  split
  · rename_i conn hpc
    exact h.keep (role_of_pc hpc).symm
  · exact h

theorem inv_makeConnection (made : Option Nat) : Inv (s.makeConnection t made) := by
  unfold makeConnection
  split
  · rename_i conn hpc
    exact h.keep (role_of_pc hpc).symm
  · rename_i conn hpc
    exact h.keep (role_of_pc hpc).symm
  · exact h

theorem inv_destroy (conn : Nat) : Inv (s.destroy t conn) := by
  unfold destroy
  split
  · rename_i hpc
    exact or_stay h fun _ => h.keep (role_of_pc hpc).symm
  · exact h

theorem inv_push : Inv (s.push t) := by
  unfold push
  split
  · rename_i conn hpc
    exact h.put (role_of_pc hpc) rfl
  · exact h

theorem inv_unlock {pc next : PoolAt} (hpc : (pc.role = .holding ∧ next.role = .aside) ∨
    (pc.role = .putBack ∧ next.role = .notifying)) : Inv (s.unlock t pc next) := by
  refine or_stay h fun hat => h.unlock ?_
  rw [role_of_pc hat]
  exact hpc

theorem inv_notify {pc next : PoolAt} (hpc : Notified pc.role next.role) (w : ι) : Inv (s.notify t pc next w) := by
  refine or_stay h fun hat => h.notifyOne ?_ rfl
  rw [role_of_pc hat]
  exact hpc

end PoolThreads

variable [Fintype ι] [DecidableEq ι]

open PoolThreads

theorem pgThreadStep_inv {s : PoolThreads ι} (op : PGThreadOp ι) (h : Inv s) : Inv (pgThreadStep s op) := by
  cases op with
  | connection t => exact inv_call h
  | lock t => exact inv_lock h
  | look t => exact inv_look h
  | wait t => exact inv_wait h
  | spurious t => exact inv_spurious h
  | isOpen t alive => exact inv_isOpen h alive
  | makeConnection t made => exact inv_makeConnection h made
  | destroy t conn => exact inv_destroy h conn
  | push t => exact inv_push h
  | unlock t => exact inv_unlock h (Or.inr ⟨rfl, rfl⟩)
  | notifyOne t w => exact inv_notify h (Or.inr ⟨rfl, rfl⟩) w

theorem redisThreadStep_inv {s : PoolThreads ι} (op : RedisThreadOp ι) (h : Inv s) : Inv (redisThreadStep s op) := by
  cases op with
  | acquire t => exact inv_call h
  | lock t => exact inv_lock h
  | look t => exact inv_look h
  | wait t => exact inv_wait h
  | spurious t => exact inv_spurious h
  | construct t => exact inv_construct h
  | destroy t conn => exact inv_destroy h conn
  | push t => exact inv_push h
  | notifyOne t w => exact inv_notify h (Or.inl ⟨rfl, rfl⟩) w
  | unlock t => exact inv_unlock h (Or.inl ⟨rfl, rfl⟩)

/-- No thread is stuck, and nobody is blocked with more idle connections than
there are notifications to come and awakened threads. -/
structure Wakes (s : PoolThreads ι) : Prop where
  not_stuck : ¬ (0 < blocked PoolThread.role s ∧ s.items ≠ [] ∧ notifiers PoolThread.role s = 0 ∧
    awakened PoolThread.role s = 0)
  covered : 0 < blocked PoolThread.role s →
    s.items.length ≤ notifiers PoolThread.role s + awakened PoolThread.role s

omit [DecidableEq ι] in
theorem wakes_of_inv {s : PoolThreads ι} (h : Inv s) : Wakes s := ⟨h.noLostWakeup.not_stuck, h.noLostWakeup⟩

/-- **No lost wake-up.** In every state of every run of either pool, of any
size and with any threads. -/
theorem pools_no_lost_wakeup (ι : Type) [Fintype ι] [DecidableEq ι] (size : Nat) :
    (∀ ops : List (PGThreadOp ι), Wakes (run pgThreadStep (start ι size) ops)) ∧
      (∀ ops : List (RedisThreadOp ι), Wakes (run redisThreadStep (start ι size) ops)) := by
  constructor
  · intro ops
    exact wakes_of_inv (invariant pgThreadStep (J := Inv) (fun _ op => pgThreadStep_inv op) ops (inv_start _ rfl))
  · intro ops
    exact wakes_of_inv (invariant redisThreadStep (J := Inv) (fun _ op => redisThreadStep_inv op) ops (inv_start _ rfl))

/-- Two threads and one connection: the waiter is awakened by the connection put back. -/
example : awakened PoolThread.role (run pgThreadStep (start (Fin 2) 1)
    [.connection 0, .lock 0, .look 0, .isOpen 0 true, .connection 1, .lock 1, .look 1, .wait 1,
      .destroy 0 0, .lock 0, .push 0, .unlock 0, .notifyOne 0 1]) = 1 := by
  decide

end Ryklys
