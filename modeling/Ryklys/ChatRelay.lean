import Mathlib.Data.Multiset.MapFold
import Ryklys.RedisClient
import Ryklys.ViewerRegistry
import Ryklys.WebSocketThreads

/-!
# ChatRelay

The relay thread hands every chat message to `Broadcast`, while other threads
join, leave, broadcast and close. A locked access of the registry is one step,
and so is each send; the connections take their own steps in between. The
records of the deliveries and the origin of what is queued are what a run is
judged by.
-/

namespace Ryklys

deriving instance DecidableEq for WsCall

/-- The stream and the message of an array, if the relay broadcasts it. -/
def relayed (array : List Bytes) : Option (Bytes × Bytes) :=
  match RedisClient.pmessage array with
  | none => none
  | some (channel, message) => if channel.length ≤ 5 then none else some (channel.drop 5, message)

/-- One array of the subscription: the registry as `Broadcast` found it, and the
connections it came to, each with the state it saw. -/
structure Delivery (γ : Type) where
  array : List Bytes
  registry : ViewerRegistry γ
  seen : List (γ × WsState) := []

/-- `Broadcast` on the relay thread, with the rest of its snapshot. -/
structure Relaying (γ : Type) where
  delivery : Delivery γ
  message : Bytes
  waiting : List γ

def Relaying.sees {γ : Type} (r : Relaying γ) (ws : γ) (state : WsState) (waiting : List γ) : Relaying γ :=
  { r with delivery := { r.delivery with seen := r.delivery.seen ++ [(ws, state)] }, waiting }

structure Fanout (γ : Type) where
  registry : ViewerRegistry γ := {}
  conns : γ → Threads := fun _ => {}
  relaying : Option (Relaying γ) := none
  -- sends that `Broadcast` and `CloseAll` calls of other threads have before them
  pending : Multiset (γ × WsCall) := 0
  delivered : List (Delivery γ) := []
  -- the frames queued on each connection, with the delivery they come from
  log : γ → List (Option Nat × WebSocketFrame) := fun _ => []

inductive FanoutOp (γ : Type) where
  | add (streamId : Bytes) (ws : γ)
  | remove (streamId : Bytes) (ws : γ)
  | broadcast (streamId message : Bytes)
  | closeAll (streamId : Bytes) (code : UInt16) (reason : Bytes)
  -- one send of those
  | send (ws : γ) (call : WsCall)
  -- an array arrives; the snapshot lists the set in some order
  | deliver (array : List Bytes) (snapshot : List γ)
  -- the relay's next send, or its return from `Broadcast`
  | relay
  | conn (ws : γ) (op : ThreadOp)

def textFrame (message : Bytes) : WebSocketFrame := { opcode := WsOpcode.TEXT, payload := message }

def frameOf : WsCall → WebSocketFrame
  | .sendText message => textFrame message
  | .sendBinary data => { opcode := WsOpcode.BINARY, payload := data }
  | .sendPing data => { opcode := WsOpcode.PING, payload := data }
  | .close code reason => Threads.closeFrame code reason

namespace Fanout

variable {γ : Type} [DecidableEq γ] (s : Fanout γ)

def setConn (ws : γ) (c : Threads) : Fanout γ := { s with conns := Function.update s.conns ws c }

def addLog (ws : γ) (es : List (Option Nat × WebSocketFrame)) : Fanout γ :=
  { s with log := Function.update s.log ws (s.log ws ++ es) }

def sendTo (ws : γ) (call : WsCall) (origin : Option Nat) : Fanout γ :=
  (s.setConn ws { s.conns ws with conn := (s.conns ws).conn.call call }).addLog ws [(origin, frameOf call)]

def relaySend (r : Relaying γ) (ws : γ) (waiting : List γ) : Fanout γ :=
  let state := (s.conns ws).conn.state
  let next := r.sees ws state waiting
  if state = .OPEN then
    -- `SendText` waits for `write_mu_`
    if (s.conns ws).holder = none then
      { s.sendTo ws (.sendText r.message) (some s.delivered.length) with relaying := some next }
    else s
  else { s with relaying := some next }

/-- `psubscribe` hands an array to the relay's callback. -/
def deliver (array : List Bytes) (snapshot : List γ) : Fanout γ :=
  match s.relaying with
  | some _ => s
  | none =>
    match relayed array with
    | none => { s with delivered := s.delivered ++ [{ array, registry := s.registry }] }
    | some (streamId, message) =>
      if snapshot.Nodup ∧ snapshot.toFinset = s.registry.members streamId then
        { s with relaying := some { delivery := { array, registry := s.registry }, message, waiting := snapshot } }
      else s

def relayStep : Fanout γ :=
  match s.relaying with
  | none => s
  | some r =>
    match r.waiting with
    | [] => { s with delivered := s.delivered ++ [r.delivery], relaying := none }
    | ws :: waiting => s.relaySend r ws waiting

def step : FanoutOp γ → Fanout γ
  | .add streamId ws => { s with registry := s.registry.add streamId ws }
  | .remove streamId ws => { s with registry := s.registry.remove streamId ws }
  | .broadcast streamId message =>
    { s with pending := s.pending + (s.registry.members streamId).val.map fun ws => (ws, .sendText message) }
  | .closeAll streamId code reason =>
    { s with
      registry := s.registry.closeAll streamId
      pending := s.pending + (s.registry.members streamId).val.map fun ws => (ws, .close code reason) }
  | .send ws call =>
    if (ws, call) ∈ s.pending ∧ (s.conns ws).holder = none then
      let s := { s with pending := s.pending.erase (ws, call) }
      -- `Broadcast` and `Close` leave a connection that is not OPEN
      if (s.conns ws).conn.state = .OPEN then s.sendTo ws call none else s
    else s
  | .deliver array snapshot => s.deliver array snapshot
  | .relay => s.relayStep
  | .conn ws op =>
    (s.setConn ws ((s.conns ws).step op)).addLog ws (((s.conns ws).pushes op).toList.map fun frame => (none, frame))

end Fanout

end Ryklys
