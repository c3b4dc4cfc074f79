import Ryklys.WebSocketFrame

/-!
# The messages of a /sig connection

The message callback of `/sig`: an offer is handed to the peer connection, and
then the candidates that came before it; later candidates are handed on at
once. One `catch` is around everything, so an exception leaves what was done
before it. The JSON parser and the constructors and calls of the WebRTC library
are parameters.
-/

namespace Ryklys

/-! ## JSON values -/

inductive Json where
  | null
  | bool (b : Bool)
  | number (text : Bytes)
  | string (s : Bytes)
  | array (items : List Json)
  | object (fields : List (Bytes × Json))

namespace Json

/-- `get<std::string>()`; `none` where it throws. -/
def getString : Json → Option Bytes
  | string s => some s
  | _ => none

/-- `operator[]`, which makes an object of `null` and puts `null` at a missing key. -/
def index (key : Bytes) : Json → Option Json
  | object fields => some ((fields.lookup key).getD null)
  | null => some null
  | _ => none

/-- `value(key, default)` with a text as the default. -/
def value (key default : Bytes) : Json → Option Bytes
  | object fields =>
    match fields.lookup key with
    | some v => v.getString
    | none => some default
  | _ => none

end Json

/-! ## The handler -/

/-- `κ` stands for `rtc::Candidate`; `none` and `false` are exceptions. -/
structure WebRtc (κ : Type) where
  parseJson : Bytes → Option Json
  description : Bytes → Bool
  candidate : Bytes → Bytes → Option κ

/-- `setThrows` and `addThrows` tell which calls into the peer connection
throw; those of `addRemoteCandidate` are counted in each message. -/
structure SignalMessage where
  data : Bytes
  opcode : WsOpcode := WsOpcode.TEXT
  setThrows : Bool := false
  addThrows : Nat → Bool := fun _ => false

inductive Signal (κ : Type) where
  | offer
  | candidate (c : κ)
  -- the end of the candidates, and messages of an unknown type
  | skipped

/-- `added` lists the calls of `addRemoteCandidate`; `remoteDescription` is set
by the first `setRemoteDescription` that returns. -/
structure SignalSession (κ : Type) where
  remoteDescription : Bool := false
  added : List κ := []
  hasRemoteDescription : Bool := false
  earlyCandidates : List κ := []

namespace WebRtc

variable {κ : Type} (X : WebRtc κ)

def readOffer (payload : Json) : Option (Signal κ) := do
  let sdp ← (← payload.index (bytes "sdp")).getString
  if X.description sdp then some .offer else none

def readCandidate (payload : Json) : Option (Signal κ) := do
  let candidateStr ← (← (← payload.index (bytes "candidate")).index (bytes "candidate")).getString
  if candidateStr = [] then return .skipped
  let candidateStr := if bytes "a=" <+: candidateStr then candidateStr.drop 2 else candidateStr
  let sdpMid ← (← (← payload.index (bytes "candidate")).index (bytes "sdpMid")).getString
  let candidate ← X.candidate candidateStr sdpMid
  return .candidate candidate

/-- What is read of a message before anything is changed; `none` where that throws. -/
def readSignal (data : Bytes) : Option (Signal κ) := do
  let payload ← X.parseJson data
  let type ← payload.value (bytes "type") []
  if type = bytes "offer" then X.readOffer payload
  else if type = bytes "candidate" then X.readCandidate payload
  else return .skipped

end WebRtc

namespace SignalSession

variable {κ : Type}

/-- The loop over the early candidates: the calls it makes, and whether it came
to its end. -/
def flush (addThrows : Nat → Bool) : Nat → List κ → List κ × Bool
  | _, [] => ([], true)
  | i, queued :: rest =>
    if addThrows i then ([queued], false)
    else
      let (calls, done) := flush addThrows (i + 1) rest
      (queued :: calls, done)

def offer (s : SignalSession κ) (setThrows : Bool) (addThrows : Nat → Bool) : SignalSession κ :=
  if setThrows then s
  else
    let (calls, done) := flush addThrows 0 s.earlyCandidates
    let s := { s with remoteDescription := true, added := s.added ++ calls }
    if done then { s with earlyCandidates := [], hasRemoteDescription := true } else s

/-- Nothing follows the call of `addRemoteCandidate` here, so it does not matter
whether it throws. -/
def candidate (s : SignalSession κ) (c : κ) : SignalSession κ :=
  if s.hasRemoteDescription then { s with added := s.added ++ [c] }
  else { s with earlyCandidates := s.earlyCandidates ++ [c] }

def onMessage (X : WebRtc κ) (s : SignalSession κ) (m : SignalMessage) : SignalSession κ :=
  if m.opcode = WsOpcode.TEXT then
    match X.readSignal m.data with
    | some .offer => s.offer m.setThrows m.addThrows
    | some (.candidate c) => s.candidate c
    | some .skipped => s
    -- thrown, and caught around everything
    | none => s
  else s

end SignalSession

end Ryklys
