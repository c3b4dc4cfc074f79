import Ryklys.RedisClient

/-!
# RedisClient on a connection that breaks

The readers where the stream of replies ends: a `recv` that finds nothing more
to read returns 0, and one on a descriptor that was given up returns -1. Both
are `none` here. `readArray` and the subscription loops run on top of them.
-/

namespace Ryklys

/-- `connected` is `fd_ >= 0`; `writable` tells if `send` still takes bytes. -/
structure RedisLink where
  client : RedisClient := {}
  connected : Bool := true
  writable : Bool := true

namespace RedisLink

variable (limit : Nat → Nat)

def disconnect (l : RedisLink) : RedisLink := { l with connected := false }

def recv (l : RedisLink) (count : Nat) : Option (Bytes × RedisLink) :=
  if l.connected then
    match l.client.recv limit count with
    | .ok (got, client) => some (got, { l with client := client })
    | .error _ => none
  else none

/-- A `recv` whose result nothing looks at. -/
def skip (l : RedisLink) (count : Nat) : RedisLink :=
  match l.recv limit count with
  | some (_, l) => l
  | none => l

def sendCommand (l : RedisLink) (args : List Bytes) : RedisLink :=
  if l.connected && l.writable then { l with client := l.client.sendCommand args } else l.disconnect

/-- One call of `send`, which takes bytes from the front of `data` or fails. -/
def send (result : SendResult) (l : RedisLink) (data : Bytes) : Option (Nat × RedisLink) :=
  if l.connected then
    match result with
    | .accepted n =>
      let sent := acceptCount n data.length
      some (sent, { l with client := { l.client with sent := l.client.sent ++ data.take sent } })
    | _ => none
  else none

/-- The loop of `sendCommand`; `results i` is what its call number `i` returns.
Every pass sends a byte. -/
def sendLoop (results : Nat → SendResult) (cmd : Bytes) : Nat → Nat → Nat → RedisLink → RedisLink
  | 0, _, _, l => l
  | fuel + 1, i, total, l =>
    if total < cmd.length then
      match l.send (results i) (cmd.drop total) with
      | none => l.disconnect
      | some (sent, l) => sendLoop results cmd fuel (i + 1) (total + sent) l
    else l

/-- `sendCommand`, with the results of its calls of `send`. -/
def sendCommandBy (results : Nat → SendResult) (l : RedisLink) (args : List Bytes) : RedisLink :=
  let cmd := RedisClient.encodeCommand args
  sendLoop results cmd cmd.length 0 0 l

/-! ## Readers -/

def readLineLoop : Nat → RedisLink → Bytes → Bytes × RedisLink
  | 0, l, _ => ([], l.disconnect)
  | fuel + 1, l, line =>
    match l.recv limit 1 with
    | none => ([], l.disconnect)
    | some (got, l) =>
      let b := got.headD 0
      if b = 13 then (line, l.skip limit 1) else readLineLoop fuel l (line ++ [b])

/-- The last pass is the one that finds the end of the stream. -/
def readLine (l : RedisLink) : Bytes × RedisLink := readLineLoop limit (l.client.unread.length + 1) l []

def readBytesLoop (count : Nat) : Nat → RedisLink → Bytes → Option Bytes × RedisLink
  | 0, l, buf => (some buf, l)
  | fuel + 1, l, buf =>
    if buf.length < count then
      match l.recv limit (count - buf.length) with
      | none => (none, l.disconnect)
      | some (got, l) => readBytesLoop count fuel l (buf ++ got)
    else (some buf, l)

def readBytes (l : RedisLink) (count : Nat) : Bytes × RedisLink :=
  match readBytesLoop limit count count l [] with
  | (none, l) => ([], l)
  | (some buf, l) => (buf, l.skip limit 2)

def readBulkString (l : RedisLink) : Except Exn (Option Bytes × RedisLink) := do
  let (line, l) := l.readLine limit
  match line with
  | [] => .ok (none, l)
  | b :: rest =>
    -- '$'
    if b = 36 then
      let len ← stoi rest
      if len < 0 then .ok (none, l)
      else
        let (buf, l) := l.readBytes limit len.toNat
        .ok (some buf, l)
    -- '+'
    else if b = 43 then .ok (some rest, l)
    else .ok (none, l)

def readElements : Nat → RedisLink → Except Exn (List Bytes × RedisLink)
  | 0, l => .ok ([], l)
  | count + 1, l => do
    let (val, l) ← l.readBulkString limit
    let (result, l) ← readElements count l
    .ok (val.getD [] :: result, l)

def readArray (l : RedisLink) : Except Exn (List Bytes × RedisLink) := do
  let (line, l) := l.readLine limit
  match line with
  | [] => .ok ([], l)
  | b :: rest =>
    -- '*'
    if b ≠ 42 then .ok ([], l)
    else
      let count ← stoi rest
      readElements limit count.toNat l

/-! ## Commands -/

def get (l : RedisLink) (key : Bytes) : Except Exn (Option Bytes × RedisLink) :=
  (l.sendCommand [bytes "GET", key]).readBulkString limit

def message : List Bytes → Option (Bytes × Bytes)
  | [kind, channel, message] => if kind = bytes "message" then some (channel, message) else none
  | _ => none

/-- The calls of the callback, and how the method was left. -/
structure Subscription where
  calls : List (Bytes × Bytes)
  ended : Except Exn RedisLink

def readConfirmations : Nat → RedisLink → Except Exn RedisLink
  | 0, l => .ok l
  | n + 1, l => do
    let (_, l) ← l.readArray limit
    readConfirmations n l

/-- Every pass takes a byte or gives the descriptor up. -/
def listenLoop (pick : List Bytes → Option (Bytes × Bytes)) :
    Nat → RedisLink → List (Bytes × Bytes) → Subscription
  | 0, l, calls => ⟨calls, .ok l⟩
  | fuel + 1, l, calls =>
    if l.connected then
      match l.readArray limit with
      | .error e => ⟨calls, .error e⟩
      | .ok (arr, l) => listenLoop pick fuel l (calls ++ (pick arr).toList)
    else ⟨calls, .ok l⟩

def listen (pick : List Bytes → Option (Bytes × Bytes)) (args : List Bytes) (confirmations : Nat) (l : RedisLink) :
    Subscription :=
  match readConfirmations limit confirmations (l.sendCommand args) with
  | .error e => ⟨[], .error e⟩
  | .ok l => listenLoop limit pick (l.client.unread.length + 1) l []

def subscribe (l : RedisLink) (channel : Bytes) : Subscription :=
  l.listen limit message [bytes "SUBSCRIBE", channel] 1

def psubscribe (l : RedisLink) (pattern : Bytes) : Subscription :=
  l.listen limit RedisClient.pmessage [bytes "PSUBSCRIBE", pattern] 1

def subscribeMultiple (l : RedisLink) (channels : List Bytes) : Subscription :=
  l.listen limit message (bytes "SUBSCRIBE" :: channels) channels.length

/-! ## Where nothing breaks

What `RedisClient` returns, a connected link returns.
-/

theorem ok_of_bind {ε α β : Type} {x : Except ε α} {f : α → Except ε β} {r : β} (h : (x >>= f) = .ok r) :
    ∃ a, x = .ok a ∧ f a = .ok r := by
  cases x with
  | error e => cases h
  | ok a => exact ⟨a, rfl, h⟩

variable {limit} {l : RedisLink} {c : RedisClient}

theorem recv_of_client (hc : l.connected = true) {count : Nat} {got : Bytes}
    (h : l.client.recv limit count = .ok (got, c)) : l.recv limit count = some (got, { l with client := c }) := by
  rw [recv, if_pos hc, h]

theorem skip_of_client (hc : l.connected = true) {count : Nat} {got : Bytes}
    (h : l.client.recv limit count = .ok (got, c)) : l.skip limit count = { l with client := c } := by
  rw [skip, recv_of_client hc h]

theorem readLineLoop_of_client {fuel : Nat} {acc line : Bytes} (hc : l.connected = true)
    (h : l.client.readLineLoop limit fuel acc = .ok (line, c)) :
    l.readLineLoop limit (fuel + 1) acc = (line, { l with client := c }) := by
  induction fuel generalizing l acc with
  | zero => cases h
  | succ fuel ih =>
    obtain ⟨⟨got, d⟩, hrecv, h⟩ := ok_of_bind h
    rw [readLineLoop, recv_of_client hc hrecv]
    simp only at h ⊢
    by_cases hcr : got.headD 0 = 13
    · rw [if_pos hcr] at h
      obtain ⟨⟨lf, e⟩, hlf, h⟩ := ok_of_bind h
      cases h
      rw [if_pos hcr, skip_of_client (l := { l with client := d }) hc hlf]
    · rw [if_neg hcr] at h
      rw [if_neg hcr]
      exact ih (l := { l with client := d }) hc h

theorem readLine_of_client {line : Bytes} (hc : l.connected = true) (h : l.client.readLine limit = .ok (line, c)) :
    l.readLine limit = (line, { l with client := c }) := readLineLoop_of_client hc h

theorem readBytesLoop_of_client {count fuel : Nat} {acc buf : Bytes} (hc : l.connected = true)
    (h : l.client.readBytesLoop limit count fuel acc = .ok (buf, c)) :
    l.readBytesLoop limit count fuel acc = (some buf, { l with client := c }) := by
  induction fuel generalizing l acc with
  | zero =>
    cases h
    rfl
  | succ fuel ih =>
    rw [RedisClient.readBytesLoop] at h
    rw [readBytesLoop]
    by_cases hlt : acc.length < count
    · rw [if_pos hlt] at h
      obtain ⟨⟨got, d⟩, hrecv, h⟩ := ok_of_bind h
      rw [if_pos hlt, recv_of_client hc hrecv]
      exact ih (l := { l with client := d }) hc h
    · rw [if_neg hlt] at h
      cases h
      rw [if_neg hlt]

theorem readBytes_of_client {count : Nat} {buf : Bytes} (hc : l.connected = true)
    (h : l.client.readBytes limit count = .ok (buf, c)) :
    l.readBytes limit count = (buf, { l with client := c }) := by
  obtain ⟨⟨buf, d⟩, hloop, h⟩ := ok_of_bind h
  obtain ⟨⟨got, e⟩, hskip, h⟩ := ok_of_bind h
  cases h
  rw [readBytes, readBytesLoop_of_client hc hloop]
  simp only
  rw [skip_of_client (l := { l with client := d }) hc hskip]

theorem stoi_of_client {s : Bytes} {n : Int} (h : RedisClient.stoi s = .ok n) : stoi s = .ok n := by
  unfold RedisClient.stoi at h
  split at h
  · rename_i m hm
    cases h
    exact hm
  · cases h

theorem readBulkString_of_client {v : Option Bytes} (hc : l.connected = true)
    (h : l.client.readBulkString limit = .ok (v, c)) :
    l.readBulkString limit = .ok (v, { l with client := c }) := by
  obtain ⟨⟨line, d⟩, hline, h⟩ := ok_of_bind h
  rw [readBulkString, readLine_of_client hc hline]
  cases line with
  | nil =>
    cases h
    rfl
  | cons b rest =>
    simp only at h ⊢
    by_cases hbulk : b = 36
    · rw [if_pos hbulk] at h
      obtain ⟨len, hlen, h⟩ := ok_of_bind h
      rw [if_pos hbulk, stoi_of_client hlen]
      change (if len < 0 then _ else _) = _
      by_cases hneg : len < 0
      · rw [if_pos hneg] at h
        cases h
        rw [if_pos hneg]
      · rw [if_neg hneg] at h
        obtain ⟨⟨buf, e⟩, hbytes, h⟩ := ok_of_bind h
        cases h
        rw [if_neg hneg, readBytes_of_client (l := { l with client := d }) hc hbytes]
    · rw [if_neg hbulk] at h
      rw [if_neg hbulk]
      by_cases hsimple : b = 43
      · rw [if_pos hsimple] at h
        cases h
        rw [if_pos hsimple]
      · rw [if_neg hsimple] at h
        cases h
        rw [if_neg hsimple]

/-- **Refinement.** On a connection that has not broken, `get` is the one of
`RedisClient`. -/
theorem get_of_client {key : Bytes} {v : Option Bytes} (hc : l.connected = true) (hw : l.writable = true)
    (h : l.client.get limit key = .ok (v, c)) : l.get limit key = .ok (v, { l with client := c }) := by
  have hsend : l.sendCommand [bytes "GET", key] = { l with client := l.client.sendCommand [bytes "GET", key] } := by
    rw [sendCommand, hc, hw]
    rfl
  rw [get, hsend]
  exact readBulkString_of_client (l := { l with client := l.client.sendCommand [bytes "GET", key] }) hc h

end RedisLink

end Ryklys
