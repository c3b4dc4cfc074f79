import Ryklys.WebSocketThreads

/-!
# The /sig handler and the rows of `streams`

The setup of a signalling connection inserts a live row and then installs the
callbacks; the close callback ends the row, for a close code of 1000 to 4999.
The threads of the connection run from the moment it is published. Updates of
the database succeed.
-/

namespace Ryklys

inductive StreamStatus where
  | live
  | ended
  deriving DecidableEq, Repr

structure StreamRow where
  id : Bytes
  status : StreamStatus
  deriving DecidableEq, Repr

inductive SigSetup where
  | create
  | peerConnection
  | setOnMessage
  | setOnClose
  | finished
  deriving DecidableEq, Repr

/-- `authorized` tells what `auth_func_` returns for its request. -/
structure SigConnection where
  authorized : Bool
  setup : SigSetup := .create
  -- of the session that the callbacks hold
  dbStreamId : Option Bytes := none
  threads : Threads := {}

structure SignallingNode where
  rows : List StreamRow := []
  conns : List SigConnection := []

inductive NodeOp where
  | connect (authorized : Bool)
  -- the next step of a setup; `GenerateStreamId` returns `streamId`
  | setup (i : Nat) (streamId : Bytes)
  -- `createPeerConnection` throws
  | setupThrows (i : Nat)
  | thread (i : Nat) (op : ThreadOp)

/-- The callbacks are installed by the setup alone. -/
def ThreadOp.installs : ThreadOp → Bool
  | .setOnMessage => true
  | .setOnClose => true
  | _ => false

namespace StreamRow

def setEnded (rows : List StreamRow) (streamId : Bytes) : List StreamRow :=
  rows.map fun row => if row.id = streamId then { row with status := .ended } else row

end StreamRow

def validClose (code : UInt16) : Bool := !(code < 1000 || code > 4999)

namespace SigConnection

variable (c : SigConnection)

/-- The database part of the callback of `SetOnClose`. -/
def onClose (rows : List StreamRow) (code : UInt16) : List StreamRow :=
  if validClose code then
    match c.dbStreamId with
    | some streamId => StreamRow.setEnded rows streamId
    | none => rows
  else rows

/-- A step of a thread; the callback's update is taken with its start. -/
def threadRows (rows : List StreamRow) : ThreadOp → List StreamRow
  | .reader =>
    match c.threads.reader with
    | .notify code _ => if c.threads.conn.onClose then c.onClose rows code else rows
    | _ => rows
  | _ => rows

def Idle : Prop := c.setup = .finished ∧ c.threads.Quiet

end SigConnection

namespace SignallingNode

variable (s : SignallingNode)

def setConn (i : Nat) (c : SigConnection) : SignallingNode := { s with conns := s.conns.set i c }

def create (i : Nat) (c : SigConnection) (streamId : Bytes) : SignallingNode :=
  { rows := s.rows ++ [⟨streamId, .live⟩]
    conns := s.conns.set i { c with setup := .peerConnection, dbStreamId := some streamId } }

def setupStep (i : Nat) (c : SigConnection) (streamId : Bytes) : SignallingNode :=
  match c.setup with
  | .create =>
    if c.authorized then
      -- the id is the primary key: `Create` throws on a second row of one id
      if streamId ∈ s.rows.map StreamRow.id then s.setConn i { c with setup := .finished }
      else s.create i c streamId
    else s.setConn i { c with setup := .finished }
  | .peerConnection => s.setConn i { c with setup := .setOnMessage }
  | .setOnMessage => s.setConn i { c with setup := .setOnClose, threads := c.threads.step .setOnMessage }
  | .setOnClose => s.setConn i { c with setup := .finished, threads := c.threads.step .setOnClose }
  | .finished => s

def threadStep (i : Nat) (c : SigConnection) (op : ThreadOp) : SignallingNode :=
  if op.installs then s
  else { rows := c.threadRows s.rows op, conns := s.conns.set i { c with threads := c.threads.step op } }

def ofConn (i : Nat) (f : SigConnection → SignallingNode) : SignallingNode :=
  match s.conns[i]? with
  | some c => f c
  | none => s

def step (s : SignallingNode) : NodeOp → SignallingNode
  | .connect authorized => { s with conns := s.conns ++ [{ authorized := authorized }] }
  | .setup i streamId => s.ofConn i fun c => s.setupStep i c streamId
  | .setupThrows i =>
    s.ofConn i fun c => if c.setup = .peerConnection then s.setConn i { c with setup := .finished } else s
  | .thread i op => s.ofConn i fun c => s.threadStep i c op

/-- With no handler in progress, every live row has a streamer. -/
def LiveHasStreamer : Prop :=
  (∀ c ∈ s.conns, c.Idle) → ∀ row ∈ s.rows, row.status = .live →
    ∃ c ∈ s.conns, c.dbStreamId = some row.id ∧ c.threads.conn.state ≠ .CLOSED

end SignallingNode

end Ryklys
