import Ryklys.ConnectionTable
import Ryklys.HttpConnection

/-!
# The worker's part in a connection's end

For every event the backend's loop hands a connection and its flags to a worker,
which calls `OnReadable`, `OnWritable` and `HandleClientClosedConnection` one
after the other, each if its flag is set. StreamPocket's loop does the same
itself, and leaves the last out for an event with data. A worker finds the peer
gone in any of them: by the flag itself, by a `recv` that does not return for
want of data, or by a `send` that fails.
-/

namespace Ryklys

/-- `hup` is `EPOLLHUP | EPOLLERR`. -/
structure EventFlags where
  epollin : Bool := false
  epollout : Bool := false
  hup : Bool := false
  deriving DecidableEq, Repr

inductive JobAt where
  -- in the `recv` loop of `OnReadable`
  | reading
  -- behind it: `HandleRead`, or the frames
  | handling
  -- behind the locked block of `UpgradeToWebSocket`
  | setup
  | writing
  | closing
  | erasing
  | done
  deriving DecidableEq, Repr

/-- An event in the hands of a worker. -/
structure Job where
  conn : Socket
  -- the object is the WebSocketConnection of the socket
  webSocket : Bool
  events : EventFlags
  at_ : JobAt
  -- the peer was found gone
  noticed : Bool
  deriving DecidableEq, Repr

structure Release where
  -- the loop is StreamPocket's
  pocket : Bool
  table : ConnectionTable
  upgraded : List Socket := []
  jobs : List Job := []
  -- sockets for which a job that found the peer gone is over
  handled : List Socket := []

/-- The epoll thread's steps, and those of the worker with job `j`. -/
inductive ReleaseOp where
  | accept
  | insert
  | report (c : Socket) (webSocket : Bool) (events : EventFlags)
  | recvEnds (j : Nat) (stop : RecvStop)
  | upgrade (j : Nat)
  | returns (j : Nat)
  | throws (j : Nat)
  | sendEnds (j : Nat) (failed : Bool)
  | close (j : Nat)
  | erase (j : Nat)

namespace EventFlags

variable (pocket : Bool) (e : EventFlags)

/-- The event has `HandleClientClosedConnection` called. -/
def closes : Bool := e.hup && !(pocket && e.epollin)

def afterWritable : JobAt := if e.closes pocket then .closing else .done

def afterReadable : JobAt := if e.epollout then .writing else e.afterWritable pocket

def first : JobAt := if e.epollin then .reading else e.afterReadable pocket

end EventFlags

namespace Release

def start (pocket : Bool) (reserved : List Nat) : Release := { pocket, table := .start reserved }

variable (s : Release)

def setTable (table : ConnectionTable) : Release := { s with table := table }

/-- A job that is over and had found the peer gone has handled its close. -/
def moveTo (j : Nat) (job : Job) (at_ : JobAt) : Release :=
  { s with
    jobs := s.jobs.set j { job with at_ := at_ }
    handled := if at_ = .done ∧ job.noticed then job.conn :: s.handled else s.handled }

def noticeAt (j : Nat) (job : Job) (at_ : JobAt) : Release := s.moveTo j { job with noticed := true } at_

def markUpgraded (c : Socket) : Release := { s with upgraded := c :: s.upgraded }

/-- The step of the worker with job `j`, if it is at one of the points `from_`. -/
def ofJob (j : Nat) (from_ : List JobAt) (f : Job → Release) : Release :=
  match s.jobs[j]? with
  | some job => if job.at_ ∈ from_ then f job else s
  | none => s

def step (s : Release) : ReleaseOp → Release
  | .accept => s.setTable (s.table.step .accept)
  | .insert => s.setTable (s.table.step .insert)
  | .report c webSocket events =>
    if c ∈ s.table.inserted ∧ (webSocket → c ∈ s.upgraded) then
      { s with jobs := s.jobs ++ [⟨c, webSocket, events, events.first s.pocket, events.hup⟩] }
    else s
  | .recvEnds j stop =>
    s.ofJob j [.reading] fun job =>
      match stop with
      | .eagain => s.moveTo j job .handling
      -- `OnReadable` returns, of either kind of connection
      | .eof => s.noticeAt j job (job.events.afterReadable s.pocket)
      | .error => s.noticeAt j job (job.events.afterReadable s.pocket)
  | .upgrade j =>
    s.ofJob j [.handling] fun job =>
      if job.webSocket then s
      else ((s.setTable (s.table.step (.upgrade job.conn))).markUpgraded job.conn).moveTo j job .setup
  | .returns j => s.ofJob j [.handling, .setup] fun job => s.moveTo j job (job.events.afterReadable s.pocket)
  -- the lambda's `catch` is behind all three calls
  | .throws j => s.ofJob j [.handling, .setup] fun job => s.moveTo j job .done
  | .sendEnds j failed =>
    s.ofJob j [.writing] fun job =>
      if failed then s.noticeAt j job (job.events.afterWritable s.pocket)
      else s.moveTo j job (job.events.afterWritable s.pocket)
  | .close j => s.ofJob j [.closing] fun job => (s.setTable (s.table.step (.close job.conn))).moveTo j job .erasing
  | .erase j => s.ofJob j [.erasing] fun job => (s.setTable (s.table.step (.erase job.conn))).moveTo j job .done

end Release

end Ryklys
