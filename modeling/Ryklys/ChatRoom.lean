import Mathlib.Logic.Function.Basic
import Ryklys.CookieAuth
import Ryklys.SignallingMessages
import Ryklys.UsersTable

/-!
# The chat of a stream

The `/ws/view` connections of all nodes over the one table `chat_messages` and
the one Redis: the message callback step by step, and the route of the chat
history. The JSON parser and `dump` are parameters. A connection runs one
callback at a time, since `OnReadable` holds `conn_mutex_`.
-/

namespace Ryklys

namespace ChatRepository

/-- `createdAt` is the instant that the text of the column is of. -/
structure ChatMessage where
  id : Int
  streamId : Bytes
  userId : Int
  username : Bytes
  message : Bytes
  createdAt : Int
  deriving DecidableEq, Repr

/-- What the query of `GetRecent` may find: `ORDER BY created_at DESC LIMIT`. -/
structure Selects (rows : List ChatMessage) (streamId : Bytes) (limit : Nat) (result : List ChatMessage) : Prop where
  length : result.length = min limit (rows.filter fun r => decide (r.streamId = cStr streamId)).length
  nodup : result.Nodup
  mem : ∀ m ∈ result, m ∈ rows ∧ m.streamId = cStr streamId
  descending : result.Pairwise fun a b => b.createdAt ≤ a.createdAt
  latest : ∀ r ∈ rows, r.streamId = cStr streamId → r ∉ result → ∀ m ∈ result, r.createdAt ≤ m.createdAt

/-- The oldest first. -/
def getRecent (result : List ChatMessage) : List ChatMessage := result.reverse

end ChatRepository

/-! ## The history route -/

/-- The text of a chat message; `none` where the callback returns or throws
before it has done anything. -/
def readChat (parseJson : Bytes → Option Json) (data : Bytes) (opcode : WsOpcode) : Option Bytes :=
  if opcode ≠ WsOpcode.TEXT then none
  else do
    let msg ← parseJson data
    if (← msg.value (bytes "type") []) ≠ bytes "chat" then none
    else
      let text ← msg.value (bytes "text") []
      if text = [] ∨ 500 < text.length then none else some text

/-- Where the callback is. -/
inductive ChatPhase where
  | idle
  | inserting (text : Bytes)
  | publishing (saved : ChatRepository.ChatMessage)

structure ChatViewer where
  -- the upgrade request, and what the setup took from it
  request : HttpRequest
  streamId : Bytes
  user : AuthenticatedUser
  phase : ChatPhase := .idle
  -- the texts that the callback went on with
  said : List Bytes := []

/-- A message Redis took, with the connection it is from. -/
structure ChatPublish (ι : Type) where
  viewer : ι
  channel : Bytes
  saved : ChatRepository.ChatMessage

structure ChatRoom (ι : Type) where
  rows : List ChatRepository.ChatMessage := []
  viewer : ι → Option ChatViewer := fun _ => none
  published : List (ChatPublish ι) := []

def streamIdOf (request : HttpRequest) : Option Bytes :=
  match request.queryParams.lookup (bytes "streamId") with
  | some streamId => if streamId = [] then none else some streamId
  | none => none

def chatChannel (streamId : Bytes) : Bytes := bytes "chat:" ++ streamId

inductive ChatRoomOp (ι : Type) where
  -- the setup of `/ws/view` runs, at this time
  | connect (t : ι) (now : Int) (request : HttpRequest)
  | message (t : ι) (data : Bytes) (opcode : WsOpcode)
  -- `Insert` returns; the id and the time are the database's
  | insert (t : ι) (id createdAt : Int)
  -- it throws, and the row may have been committed all the same
  | insertThrows (t : ι) (committed : Option (Int × Int))
  -- `publish` returns; a broken connection answers 0 and Redis has nothing
  | publish (t : ι) (accepted : Bool)
  | publishThrows (t : ι) (accepted : Bool)

namespace ChatRoom

variable {ι : Type} [DecidableEq ι] (jwtSecret : Option Bytes) (parseJson : Bytes → Option Json)

def setViewer (s : ChatRoom ι) (t : ι) (v : ChatViewer) : ChatRoom ι :=
  { s with viewer := Function.update s.viewer t (some v) }

def ofViewer (s : ChatRoom ι) (t : ι) (f : ChatViewer → ChatRoom ι) : ChatRoom ι :=
  match s.viewer t with
  | some v => f v
  | none => s

def saved (v : ChatViewer) (text : Bytes) (id createdAt : Int) : ChatRepository.ChatMessage :=
  ⟨id, cStr v.streamId, v.user.id, cStr v.user.username, cStr text, createdAt⟩

def connect (s : ChatRoom ι) (t : ι) (now : Int) (request : HttpRequest) : ChatRoom ι :=
  match s.viewer t, extractAuthenticatedUserFromRequest jwtSecret now request, streamIdOf request with
  | none, some user, some streamId => s.setViewer t { request, streamId, user }
  -- taken, or closed with 1008
  | _, _, _ => s

def message (s : ChatRoom ι) (t : ι) (v : ChatViewer) (data : Bytes) (opcode : WsOpcode) : ChatRoom ι :=
  match v.phase, readChat parseJson data opcode with
  | .idle, some text => s.setViewer t { v with phase := .inserting text, said := v.said ++ [text] }
  | _, _ => s

/-- The row is committed; the id is the primary key. -/
def insert (s : ChatRoom ι) (t : ι) (v : ChatViewer) (id createdAt : Int)
    (next : ChatRepository.ChatMessage → ChatPhase) : ChatRoom ι :=
  match v.phase with
  | .inserting text =>
    if id ∈ s.rows.map ChatRepository.ChatMessage.id then s
    else
      let row := saved v text id createdAt
      { s.setViewer t { v with phase := next row } with rows := s.rows ++ [row] }
  | _ => s

def publish (s : ChatRoom ι) (t : ι) (v : ChatViewer) (accepted : Bool) : ChatRoom ι :=
  match v.phase with
  | .publishing row =>
    let published := if accepted then s.published ++ [⟨t, chatChannel v.streamId, row⟩] else s.published
    { s.setViewer t { v with phase := .idle } with published }
  | _ => s

def insertThrows (s : ChatRoom ι) (t : ι) (v : ChatViewer) : Option (Int × Int) → ChatRoom ι
  | some (id, createdAt) => s.insert t v id createdAt fun _ => .idle
  | none =>
    match v.phase with
    | .inserting _ => s.setViewer t { v with phase := .idle }
    | _ => s

def step (s : ChatRoom ι) : ChatRoomOp ι → ChatRoom ι
  | .connect t now request => s.connect jwtSecret t now request
  | .message t data opcode => s.ofViewer t fun v => s.message parseJson t v data opcode
  | .insert t id createdAt => s.ofViewer t fun v => s.insert t v id createdAt .publishing
  | .insertThrows t committed => s.ofViewer t fun v => s.insertThrows t v committed
  | .publish t accepted => s.ofViewer t fun v => s.publish t v accepted
  | .publishThrows t accepted => s.ofViewer t fun v => s.publish t v accepted

end ChatRoom

end Ryklys
