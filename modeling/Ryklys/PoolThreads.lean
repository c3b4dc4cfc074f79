import Ryklys.Monitor
import Ryklys.Runs

/-!
# The threads at PGPool and RedisPool

What a thread does between two points at which another thread may come in, for
any number of threads. A step of a thread that is elsewhere, or that needs the
mutex while another thread has it, is not taken. Both pools take a connection
in the same way; `PGPool` notifies after it has unlocked, `RedisPool` while it
has the mutex, and a replacement that throws sends its thread from inside
`PGPool::connection` to `freeConnection`.
-/

namespace Ryklys

open Monitor Runs

inductive PoolAt where
  | outside
  -- connection() and acquire(): before the lock, at the test of the loop, in wait()
  | locking
  | looking (woken : Bool)
  | aboutToWait
  | waiting
  | awakened
  -- unlocked again
  | popped (conn : Nat)
  | dead (conn : Nat)
  -- freeConnection() and release()
  | freeing (conn : Nat)
  | pushing (conn : Nat)
  | pushed
  -- PGPool, unlocked
  | notifying
  -- RedisPool, notified
  | unlocking
  deriving DecidableEq, Repr

def PoolAt.role : PoolAt → Role
  | outside | locking | popped _ | dead _ | freeing _ => .aside
  | looking false | pushing _ | unlocking => .holding
  | looking true => .rechecking
  | aboutToWait => .willWait
  | waiting => .blocked
  | awakened => .awake
  | pushed => .putBack
  | notifying => .notifying

/-- A thread, and the connections of its leases. -/
structure PoolThread where
  pc : PoolAt := .outside
  held : List Nat := []
  deriving DecidableEq, Repr

abbrev PoolThread.role (x : PoolThread) : Role := x.pc.role

abbrev PoolThreads (ι : Type) := State ι PoolThread Nat

variable {ι : Type} [DecidableEq ι]

namespace PoolThreads

def start (ι : Type) (size : Nat) : PoolThreads ι := ⟨List.range size, none, fun _ => {}⟩

variable (s : PoolThreads ι) (t : ι)

/-- Thread `t` goes to `pc`. -/
def goto (pc : PoolAt) (mutex : Option ι) (items : List Nat) : PoolThreads ι :=
  s.move t { s.phase t with pc := pc } mutex items

/-! ## Taking a connection -/

def call : PoolThreads ι :=
  match (s.phase t).pc with
  | .outside => s.goto t .locking s.mutex s.items
  | _ => s

def lock : PoolThreads ι :=
  if s.mutex = none then
    match (s.phase t).pc with
    | .locking => s.goto t (.looking false) (some t) s.items
    | .awakened => s.goto t (.looking true) (some t) s.items
    | .freeing conn => s.goto t (.pushing conn) (some t) s.items
    | _ => s
  else s

/-- The test of the loop, and the pop and the unlock behind it. -/
def look : PoolThreads ι :=
  match (s.phase t).pc, s.items with
  | .looking _, [] => s.goto t .aboutToWait s.mutex s.items
  | .looking _, conn :: items => s.goto t (.popped conn) none items
  | _, _ => s

def wait : PoolThreads ι :=
  match (s.phase t).pc with
  | .aboutToWait => s.goto t .waiting none s.items
  | _ => s

def spurious : PoolThreads ι :=
  match (s.phase t).pc with
  | .waiting => s.goto t .awakened s.mutex s.items
  | _ => s

/-- The connection goes to the lease. -/
def construct : PoolThreads ι :=
  match (s.phase t).pc with
  | .popped conn => s.move t ⟨.outside, conn :: (s.phase t).held⟩ s.mutex s.items
  | _ => s

def isOpen (alive : Bool) : PoolThreads ι :=
  if alive then s.construct t
  else
    match (s.phase t).pc with
    | .popped conn => s.goto t (.dead conn) s.mutex s.items
    | _ => s

/-- `make_shared<pqxx::connection>`: the connection made, or an exception. -/
def makeConnection (made : Option Nat) : PoolThreads ι :=
  match (s.phase t).pc, made with
  | .dead _, some conn => s.move t ⟨.outside, conn :: (s.phase t).held⟩ s.mutex s.items
  | .dead conn, none => s.goto t (.freeing conn) s.mutex s.items
  | _, _ => s

/-! ## Putting one back -/

def destroy (conn : Nat) : PoolThreads ι :=
  match (s.phase t).pc with
  | .outside =>
    if conn ∈ (s.phase t).held then s.move t ⟨.freeing conn, (s.phase t).held.erase conn⟩ s.mutex s.items else s
  | _ => s

def push : PoolThreads ι :=
  match (s.phase t).pc with
  | .pushing conn => s.goto t .pushed s.mutex (s.items ++ [conn])
  | _ => s

def unlock (pc next : PoolAt) : PoolThreads ι := if (s.phase t).pc = pc then s.goto t next none s.items else s

def notify [Fintype ι] (pc next : PoolAt) (w : ι) : PoolThreads ι :=
  if (s.phase t).pc = pc then
    s.notifyOne PoolThread.role t { s.phase t with pc := next } w { s.phase w with pc := .awakened }
  else s

end PoolThreads

/-! ## The pools -/

variable [Fintype ι]

inductive PGThreadOp (ι : Type) where
  | connection (t : ι)
  | lock (t : ι)
  | look (t : ι)
  | wait (t : ι)
  | spurious (t : ι)
  | isOpen (t : ι) (alive : Bool)
  | makeConnection (t : ι) (made : Option Nat)
  | destroy (t : ι) (conn : Nat)
  | push (t : ι)
  | unlock (t : ι)
  | notifyOne (t w : ι)

def pgThreadStep (s : PoolThreads ι) : PGThreadOp ι → PoolThreads ι
  | .connection t => s.call t
  | .lock t => s.lock t
  | .look t => s.look t
  | .wait t => s.wait t
  | .spurious t => s.spurious t
  | .isOpen t alive => s.isOpen t alive
  | .makeConnection t made => s.makeConnection t made
  | .destroy t conn => s.destroy t conn
  | .push t => s.push t
  | .unlock t => s.unlock t .pushed .notifying
  | .notifyOne t w => s.notify t .notifying .outside w

inductive RedisThreadOp (ι : Type) where
  | acquire (t : ι)
  | lock (t : ι)
  | look (t : ι)
  | wait (t : ι)
  | spurious (t : ι)
  | construct (t : ι)
  | destroy (t : ι) (conn : Nat)
  | push (t : ι)
  | notifyOne (t w : ι)
  | unlock (t : ι)

def redisThreadStep (s : PoolThreads ι) : RedisThreadOp ι → PoolThreads ι
  | .acquire t => s.call t
  | .lock t => s.lock t
  | .look t => s.look t
  | .wait t => s.wait t
  | .spurious t => s.spurious t
  | .construct t => s.construct t
  | .destroy t conn => s.destroy t conn
  | .push t => s.push t
  | .notifyOne t w => s.notify t .pushed .unlocking w
  | .unlock t => s.unlock t .unlocking .outside

end Ryklys
