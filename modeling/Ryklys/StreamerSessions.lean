import Ryklys.Runs
import Ryklys.SignallingNode
import Ryklys.ViewerRegistry

/-!
# The sessions of streamers

What the `/sig` sessions of one node share: the rows of `streams` by the id of
the session, and by the username the viewer registry, the key
`viewers:<username>` and the directory `recordings/<username>`. Every CLOSE
frame of a connection runs the close callback, which goes step by step; the
destructor of a session runs when the last reference to it goes.
-/

namespace Ryklys

/-- What the close callback does next. -/
inductive CloseStep where
  | setEnded
  | closeAll
  | resetViewers
  | closePc
  deriving DecidableEq, Repr

inductive SessionPhase where
  | live
  | closing (next : CloseStep)
  -- no longer live, and no callback is running
  | ended
  | destroyed
  deriving DecidableEq, Repr

/-- `username` is the `streamId` of the session. -/
structure StreamerSession where
  username : Bytes
  dbStreamId : Bytes
  phase : SessionPhase := .live
  -- frames still arrive on the connection
  connected : Bool := true
  isLive : Bool := true
  pcOpen : Bool := true
  deriving DecidableEq, Repr

structure StreamerNode where
  rows : List StreamRow := []
  sessions : List StreamerSession := []
  registry : ViewerRegistry Nat := {}
  openViewers : Finset Nat := ∅
  -- 0 where there is no key
  viewers : Bytes → Int := fun _ => 0
  -- the files of a directory, with the session that recorded them
  recordings : Bytes → Option (List (Nat × Bytes)) := fun _ => none

inductive StreamerOp where
  -- `GenerateStreamId` returns `streamId`
  | connect (username streamId : Bytes)
  | record (i : Nat) (name : Bytes)
  | addViewer (channel : Bytes) (ws : Nat)
  | removeViewer (channel : Bytes) (ws : Nat)
  -- what a viewer's handler leaves in `viewers:<channel>`
  | countViewers (channel : Bytes) (count : Int)
  | closeFrame (i : Nat) (code : UInt16)
  -- a CLOSE frame in front of `SetOnClose`
  | earlyClose (i : Nat)
  -- the next step of the close callback
  | onClose (i : Nat)
  | onCloseThrows (i : Nat)
  -- the connection ends
  | gone (i : Nat)
  | destroy (i : Nat)

/-- The session whose closing this is a step of. -/
def StreamerOp.closes : StreamerOp → Option Nat
  | closeFrame i _ => some i
  | earlyClose i => some i
  | onClose i => some i
  | onCloseThrows i => some i
  | gone i => some i
  | destroy i => some i
  | _ => none

namespace StreamerNode

variable (s : StreamerNode)

def setSession (i : Nat) (x : StreamerSession) : StreamerNode := { s with sessions := s.sessions.set i x }

def ofSession (i : Nat) (f : StreamerSession → StreamerNode) : StreamerNode :=
  match s.sessions[i]? with
  | some x => f x
  | none => s

def connect (username streamId : Bytes) : StreamerNode :=
  -- the id is the primary key
  if streamId ∈ s.rows.map StreamRow.id then s
  else
    { s with
      rows := s.rows ++ [⟨streamId, .live⟩]
      sessions := s.sessions ++ [{ username := username, dbStreamId := streamId }]
      recordings := Function.update s.recordings username (some ((s.recordings username).getD [])) }

/-- A file of the same name, of whatever session, is replaced. -/
def record (i : Nat) (x : StreamerSession) (name : Bytes) : StreamerNode :=
  match s.recordings x.username with
  | some files =>
    if x.pcOpen then
      { s with
        recordings := Function.update s.recordings x.username
          (some ((files.filter fun file => file.2 ≠ name) ++ [(i, name)])) }
    else s
  | none => s

/-- Of a connection that is CLOSED already, too. -/
def closeFrame (i : Nat) (x : StreamerSession) (code : UInt16) : StreamerNode :=
  if x.connected ∧ (x.phase = .live ∨ x.phase = .ended) then
    s.setSession i
      (if validClose code then { x with phase := .closing .setEnded, isLive := false } else { x with phase := .ended })
  else s

def earlyClose (i : Nat) (x : StreamerSession) : StreamerNode :=
  if x.phase = .live then s.setSession i { x with phase := .ended } else s

/-- `CleanupStream` is the two steps in the middle. -/
def onClose (i : Nat) (x : StreamerSession) : StreamerNode :=
  match x.phase with
  | .closing .setEnded =>
    { s.setSession i { x with phase := .closing .closeAll } with rows := StreamRow.setEnded s.rows x.dbStreamId }
  | .closing .closeAll =>
    { s.setSession i { x with phase := .closing .resetViewers } with
      registry := s.registry.closeAll x.username
      openViewers := s.openViewers \ s.registry.members x.username }
  | .closing .resetViewers =>
    { s.setSession i { x with phase := .closing .closePc } with viewers := Function.update s.viewers x.username 0 }
  | .closing .closePc => s.setSession i { x with phase := .ended, pcOpen := false }
  | _ => s

def onCloseThrows (i : Nat) (x : StreamerSession) : StreamerNode :=
  match x.phase with
  | .closing _ => s.setSession i { x with phase := .ended }
  | _ => s

def gone (i : Nat) (x : StreamerSession) : StreamerNode :=
  if x.phase = .live ∨ x.phase = .ended then s.setSession i { x with phase := .ended, connected := false } else s

/-- `~StreamerSession`. -/
def destroy (i : Nat) (x : StreamerSession) : StreamerNode :=
  if x.phase = .ended then
    { s.setSession i { x with phase := .destroyed, isLive := false, pcOpen := false } with
      recordings := Function.update s.recordings x.username none }
  else s

def step : StreamerOp → StreamerNode
  | .connect username streamId => s.connect username streamId
  | .record i name => s.ofSession i fun x => s.record i x name
  | .addViewer channel ws =>
    { s with registry := s.registry.add channel ws, openViewers := insert ws s.openViewers }
  | .removeViewer channel ws =>
    { s with registry := s.registry.remove channel ws, openViewers := s.openViewers.erase ws }
  | .countViewers channel count => { s with viewers := Function.update s.viewers channel count }
  | .closeFrame i code => s.ofSession i fun x => s.closeFrame i x code
  | .earlyClose i => s.ofSession i fun x => s.earlyClose i x
  | .onClose i => s.ofSession i fun x => s.onClose i x
  | .onCloseThrows i => s.ofSession i fun x => s.onCloseThrows i x
  | .gone i => s.ofSession i fun x => s.gone i x
  | .destroy i => s.ofSession i fun x => s.destroy i x

/-! ## What closing may change -/

end StreamerNode

end Ryklys
