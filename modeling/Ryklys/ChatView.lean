import Ryklys.Runs
import Ryklys.Strings

/-!
# The chat of a page

The list of messages of `StreamView` and of `StreamerDashboard`, which both
fetch the history of a stream and listen to its live events, with the rows of
`chat_messages` behind them. The response of the history query and the live
events reach the page in any order.
-/

namespace Ryklys

structure ChatMessage where
  id : Nat
  username : Bytes
  text : Bytes
  createdAt : Bytes
  deriving DecidableEq, Repr

/-- `time` is what `created_at` is ordered by. -/
structure ChatRow where
  message : ChatMessage
  time : Nat
  deriving DecidableEq, Repr

inductive HistoryFetch where
  | sent
  | answered (data : List ChatMessage)
  | arrived (data : List ChatMessage)
  | failed
  deriving DecidableEq, Repr

/-- The page, with what the server has for it. -/
structure ChatPage where
  rows : List ChatRow := []
  -- `chat` events on their way to the page
  published : List ChatMessage := []
  history : HistoryFetch := .sent
  messages : List ChatMessage := []
  viewerCount : Int := 0
  -- the messages of the `chat` events that reached the page
  received : List ChatMessage := []

inductive ChatOp where
  -- `Insert` and the publish after it, which the page's socket gets or not
  | insert (row : ChatRow) (relayed : Bool)
  -- the history query is evaluated
  | query (data : List ChatRow)
  | fetchFails
  | historyArrives
  -- the `i`th of the events on their way arrives
  | chat (i : Nat)
  | viewerCount (count : Int)

namespace ChatPage

variable (s : ChatPage)

/-- What `GetRecent` may answer: the `limit` latest rows, oldest first. Rows of
the same time come in any order. -/
def IsRecent (limit : Nat) (rows data : List ChatRow) : Prop :=
  data.length = min limit rows.length ∧ data.Nodup ∧ (∀ row ∈ data, row ∈ rows) ∧
    data.Pairwise (fun a b => a.time ≤ b.time) ∧
    ∀ row ∈ rows, row ∉ data → ∀ row' ∈ data, row.time ≤ row'.time

instance (limit : Nat) (rows data : List ChatRow) : Decidable (IsRecent limit rows data) := by
  unfold IsRecent; infer_instance

/-- The update of a `chat` event. -/
def append (prev : List ChatMessage) (m : ChatMessage) : List ChatMessage :=
  if prev.any fun p => p.id == m.id then prev else prev ++ [m]

def step : ChatOp → ChatPage
  | .insert row relayed =>
    -- the id is the primary key
    if row.message.id ∈ s.rows.map fun r => r.message.id then s
    else
      { s with
        rows := s.rows ++ [row]
        published := if relayed then s.published ++ [row.message] else s.published }
  | .query data =>
    if s.history = .sent ∧ IsRecent 50 s.rows data then { s with history := .answered (data.map ChatRow.message) }
    else s
  | .fetchFails =>
    match s.history with
    | .sent | .answered _ => { s with history := .failed }
    | .arrived _ | .failed => s
  | .historyArrives =>
    match s.history with
    | .answered data => { s with history := .arrived data, messages := data }
    | .sent | .arrived _ | .failed => s
  | .chat i =>
    match s.published[i]? with
    | some m =>
      { s with
        published := s.published.eraseIdx i
        messages := append s.messages m
        received := s.received ++ [m] }
    | none => s
  | .viewerCount count => { s with viewerCount := count }

/-- The messages of the history response, once it is there. -/
def loaded : List ChatMessage :=
  match s.history with
  | .arrived data => data
  | .sent | .answered _ | .failed => []

/-- Every message of the response and of the events that arrived is displayed,
each id once. -/
structure Displays : Prop where
  live : ∀ m ∈ s.received, m ∈ s.messages
  history : ∀ m ∈ s.loaded, m ∈ s.messages
  once : (s.messages.map ChatMessage.id).Nodup

/-- The response that arrives holds the messages that came before it. -/
def HoldsLive : ChatOp → Prop
  | .historyArrives =>
    match s.history with
    | .answered data => ∀ m ∈ s.received, m ∈ data
    | _ => True
  | _ => True

instance (o : ChatOp) : Decidable (s.HoldsLive o) := by
  unfold HoldsLive
  split
  · split <;> infer_instance
  · infer_instance

end ChatPage

end Ryklys
