/-!
# The connection tables

`connections` and `ws_connections_` under the steps of the epoll thread and the
workers. Both are keyed by file descriptor, and the kernel hands a closed
number to the next socket accepted, so the model tells sockets apart by a
serial number the program does not have.
-/

namespace Ryklys

/-- An accepted socket; the serial number tells it from others on the same fd. -/
structure Socket where
  serial : Nat
  fd : Nat
  deriving DecidableEq, Repr

structure ConnectionTable where
  openFds : List Nat
  serials : Nat := 0
  -- accepted by the epoll thread and not inserted yet
  accepted : Option Socket := none
  connections : Nat → Option Socket := fun _ => none
  wsConnections : Nat → Option Socket := fun _ => none
  inserted : List Socket := []
  -- sockets whose close handler has run `close`
  closed : List Socket := []
  -- close handlers that have not done their erase
  erasing : List Socket := []
  -- who erased whose entry of `connections`
  erased : List (Socket × Socket) := []

/-- The number the next `accept4` returns. -/
def lowestFree (openFds : List Nat) : Nat := ((List.range (openFds.length + 1)).find? (· ∉ openFds)).getD 0

def setAt (table : Nat → Option Socket) (fd : Nat) (value : Option Socket) : Nat → Option Socket :=
  fun n => if n = fd then value else table n

/-- The atomic steps: `HandleEpollNewConnection` is `accept` then `insert`,
`HandleClientClosedConnection` is `close` then `erase`. -/
inductive TableOp where
  | accept
  -- `connections[client_socket_fd] = std::move(conn)`
  | insert
  -- the locked block of `UpgradeToWebSocket`
  | upgrade (c : Socket)
  -- `close(fd)`
  | close (c : Socket)
  -- `connections.erase(fd)`
  | erase (c : Socket)

namespace ConnectionTable

def start (reserved : List Nat) : ConnectionTable := { openFds := reserved }

def accept (s : ConnectionTable) : ConnectionTable :=
  let fd := lowestFree s.openFds
  { s with openFds := fd :: s.openFds, serials := s.serials + 1, accepted := some ⟨s.serials, fd⟩ }

def insert (s : ConnectionTable) (c : Socket) : ConnectionTable :=
  { s with accepted := none, connections := setAt s.connections c.fd (some c), inserted := c :: s.inserted }

def upgrade (s : ConnectionTable) (c : Socket) : ConnectionTable :=
  { s with
    connections := setAt s.connections c.fd none
    wsConnections := setAt s.wsConnections c.fd (some c) }

def close (s : ConnectionTable) (c : Socket) : ConnectionTable :=
  { s with openFds := s.openFds.filter (· ≠ c.fd), closed := c :: s.closed, erasing := c :: s.erasing }

def erase (s : ConnectionTable) (c : Socket) : ConnectionTable :=
  { s with
    connections := setAt s.connections c.fd none
    erasing := s.erasing.erase c
    erased := s.erased ++ (s.connections c.fd).toList.map fun d => (c, d) }

/-- A step whose handler is not at that point changes nothing. -/
def step (s : ConnectionTable) : TableOp → ConnectionTable
  | .accept => if s.accepted = none then s.accept else s
  | .insert =>
    match s.accepted with
    | some c => s.insert c
    | none => s
  | .upgrade c => if c ∈ s.inserted then s.upgrade c else s
  | .close c => if c ∈ s.inserted then s.close c else s
  | .erase c => if c ∈ s.erasing then s.erase c else s

@[simp] theorem setAt_self (table : Nat → Option Socket) (fd : Nat) (value : Option Socket) :
    setAt table fd value fd = value := if_pos rfl

theorem setAt_ne {fd n : Nat} (h : n ≠ fd) (table : Nat → Option Socket) (value : Option Socket) :
    setAt table fd value n = table n := if_neg h

@[simp] theorem insert_connections (s : ConnectionTable) (c : Socket) :
    (s.insert c).connections = setAt s.connections c.fd (some c) := rfl

@[simp] theorem upgrade_connections (s : ConnectionTable) (c : Socket) :
    (s.upgrade c).connections = setAt s.connections c.fd none := rfl

@[simp] theorem upgrade_wsConnections (s : ConnectionTable) (c : Socket) :
    (s.upgrade c).wsConnections = setAt s.wsConnections c.fd (some c) := rfl

@[simp] theorem erase_connections (s : ConnectionTable) (c : Socket) :
    (s.erase c).connections = setAt s.connections c.fd none := rfl

end ConnectionTable

end Ryklys
