import Ryklys.CloseSound
import Ryklys.Server

/-!
# WebSocket routes

The two tables of WebSocket routes, the part of `UpgradeToWebSocket` behind the
locked block, and the routes of `TestRoutes.cpp`. A session is the connection of
one upgraded request; the client may send, and a worker read, before the setup
of the route has run.
-/

namespace Ryklys

/-- What a setup does to its connection: the calls it makes, and the callbacks
it installs with the calls these make. -/
structure WsSetup where
  calls : List WsCall := []
  onMessage : Option (Bytes → WsOpcode → List WsCall) := none
  onClose : Option (UInt16 → Bytes → List WsCall) := none

abbrev WsHandlerSetup := HttpRequest → WsSetup
abbrev AuthenticatedWsHandlerSetup := HttpRequest → AuthenticatedUser → WsSetup

structure WsRoutes where
  wsRoutes : AList fun _ : Bytes => WsHandlerSetup := ∅
  authWsRoutes : AList fun _ : Bytes => AuthenticatedWsHandlerSetup := ∅

namespace WsRoutes

def registerWebSocketRoute (R : WsRoutes) (path : Bytes) (setup : WsHandlerSetup) : WsRoutes :=
  { R with wsRoutes := R.wsRoutes.insert path setup }

def registerAuthenticatedWebSocketRoute (R : WsRoutes) (path : Bytes) (setup : AuthenticatedWsHandlerSetup) :
    WsRoutes :=
  { R with authWsRoutes := R.authWsRoutes.insert path setup }

def refuse (why : Bytes) : WsSetup := { calls := [.close 1008 why] }

def upgradeToWebSocket (R : WsRoutes) (authFunc : Option ExtractAuthUserFromRequest) (request : HttpRequest) :
    WsSetup :=
  match R.authWsRoutes.lookup request.path with
  | some setup =>
    match authFunc with
    | none => refuse (bytes "Auth not configured")
    | some authFunc =>
      match authFunc request with
      | .ok (some user) => setup request user
      | .ok none => refuse (bytes "Unauthorized")
      -- the exception leaves the connection without callbacks
      | .error _ => {}
  | none =>
    match R.wsRoutes.lookup request.path with
    | some setup => setup request
    | none => refuse (bytes "No route")

end WsRoutes

/-! ## The routes of the backend -/

def echoSetup (lead : Bytes) : WsSetup where
  onMessage := some fun data opcode =>
    if opcode = WsOpcode.TEXT then [.sendText (lead ++ data)] else [.sendBinary data]
  onClose := some fun _ _ => []

def registerTestRoutes (R : WsRoutes) : WsRoutes :=
  (R.registerWebSocketRoute (bytes "/ws") fun _ => echoSetup (bytes "Echo: ")).registerWebSocketRoute
    (bytes "/ws2") fun _ => echoSetup (bytes "Echo2: ")

/-- The registrations of `main`, in its order. -/
def backendRoutes (sig view : AuthenticatedWsHandlerSetup) : WsRoutes :=
  ((registerTestRoutes {}).registerAuthenticatedWebSocketRoute (bytes "/sig")
    sig).registerAuthenticatedWebSocketRoute (bytes "/ws/view") view

/-! ## Sessions -/

namespace WsSetup

variable (setup : WsSetup)

def install (c : WebSocketConnection) : WebSocketConnection :=
  { setup.calls.foldl WebSocketConnection.call c with
    onMessage := setup.onMessage.isSome
    onClose := setup.onClose.isSome }

def reaction (frame : WebSocketFrame) : Reaction where
  calls :=
    if isMessage frame then (setup.onMessage.map fun f => f frame.payload frame.opcode).getD []
    else
      let (code, reason) := WebSocketConnection.closeReason frame.payload
      (setup.onClose.map fun f => f code reason).getD []

/-- One reaction for each callback that the dispatch of the frames makes. -/
def reactions (frames : List WebSocketFrame) : List Reaction :=
  (frames.filter (callsBack setup.onMessage.isSome setup.onClose.isSome)).map setup.reaction

end WsSetup

structure WsSession where
  conn : WebSocketConnection := {}
  -- what was installed; nothing before the setup has run
  installed : WsSetup := {}
  isSetUp : Bool := false

inductive WsSessionOp where
  | setup
  | readable (d : Drain)
  | writable (results : List SendResult)

namespace WsSession

def read (s : WsSession) (d : Drain) : WsSession :=
  { s with
    conn := (s.conn.onReadable d (s.installed.reactions (bufferedFrames (drain s.conn.readBuffer d.chunks)))).1 }

def step (setup : WsSetup) (s : WsSession) : WsSessionOp → WsSession
  | .setup => if s.isSetUp then s else ⟨setup.install s.conn, setup, true⟩
  | .readable d => s.read d
  | .writable results => { s with conn := s.conn.onWritable results }

end WsSession

end Ryklys
