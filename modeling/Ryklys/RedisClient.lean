import Ryklys.HttpConnection

/-!
# RedisClient

The commands and the RESP readers. The socket delivers the bytes of the
replies in order; how many of them one `recv` returns is up to the environment,
as a limit for each position of the stream. A `recv` on an empty stream blocks.
-/

namespace Ryklys

/-- `received` counts the bytes that `recv` has returned so far. -/
structure RedisClient where
  sent : Bytes := []
  received : Nat := 0
  unread : Bytes := []

inductive RedisStop where
  | blocked
  | thrown (e : Exn)

namespace RedisClient

variable (limit : Nat → Nat)

def advance (c : RedisClient) (n : Nat) : RedisClient :=
  { c with received := c.received + n, unread := c.unread.drop n }

def recv (c : RedisClient) (count : Nat) : Except RedisStop (Bytes × RedisClient) :=
  if c.unread = [] then .error .blocked
  else
    let n := acceptCount (limit c.received) (min count c.unread.length)
    .ok (c.unread.take n, c.advance n)

/-! ## Readers -/

/-- Every pass takes a byte, so the unread ones bound their number. -/
def readLineLoop : Nat → RedisClient → Bytes → Except RedisStop (Bytes × RedisClient)
  | 0, _, _ => .error .blocked
  | fuel + 1, c, line => do
    let (got, c) ← c.recv limit 1
    let b := got.headD 0
    if b = 13 then
      -- consume \n
      let (_, c) ← c.recv limit 1
      .ok (line, c)
    else readLineLoop fuel c (line ++ [b])

def readLine (c : RedisClient) : Except RedisStop (Bytes × RedisClient) := readLineLoop limit c.unread.length c []

def readBytesLoop (count : Nat) : Nat → RedisClient → Bytes → Except RedisStop (Bytes × RedisClient)
  | 0, c, buf => .ok (buf, c)
  | fuel + 1, c, buf =>
    if buf.length < count then do
      let (got, c) ← c.recv limit (count - buf.length)
      readBytesLoop count fuel c (buf ++ got)
    else .ok (buf, c)

def readBytes (c : RedisClient) (count : Nat) : Except RedisStop (Bytes × RedisClient) := do
  let (buf, c) ← readBytesLoop limit count count c []
  -- consume trailing \r\n
  let (_, c) ← c.recv limit 2
  .ok (buf, c)

def stoi (s : Bytes) : Except RedisStop Int :=
  match Ryklys.stoi s with
  | .ok n => .ok n
  | .error e => .error (.thrown e)

def readInteger (c : RedisClient) : Except RedisStop (Int × RedisClient) := do
  let (line, c) ← c.readLine limit
  match line with
  | [] => .ok (0, c)
  | b :: rest =>
    -- ':'
    if b ≠ 58 then .ok (0, c)
    else
      let n ← stoi rest
      .ok (n, c)

def readBulkString (c : RedisClient) : Except RedisStop (Option Bytes × RedisClient) := do
  let (line, c) ← c.readLine limit
  match line with
  | [] => .ok (none, c)
  | b :: rest =>
    -- '$'
    if b = 36 then
      let len ← stoi rest
      if len < 0 then .ok (none, c)
      else
        let (buf, c) ← c.readBytes limit len.toNat
        .ok (some buf, c)
    -- '+'
    else if b = 43 then .ok (some rest, c)
    -- an error, or a reply of another kind
    else .ok (none, c)

/-! ## Commands -/

/-- The bytes of a command; its `send` loop ends when all of them are sent. -/
def encodeCommand (args : List Bytes) : Bytes :=
  bytes "*" ++ Numeral.ofNat args.length ++ crlf
    ++ args.flatMap fun arg => bytes "$" ++ Numeral.ofNat arg.length ++ crlf ++ arg ++ crlf

def sendCommand (c : RedisClient) (args : List Bytes) : RedisClient := { c with sent := c.sent ++ encodeCommand args }

def set (c : RedisClient) (key value : Bytes) : Except RedisStop (Bool × RedisClient) := do
  let (reply, c) ← (c.sendCommand [bytes "SET", key, value]).readLine limit
  .ok (reply == bytes "+OK", c)

def get (c : RedisClient) (key : Bytes) : Except RedisStop (Option Bytes × RedisClient) :=
  (c.sendCommand [bytes "GET", key]).readBulkString limit

def incr (c : RedisClient) (key : Bytes) : Except RedisStop (Int × RedisClient) :=
  (c.sendCommand [bytes "INCR", key]).readInteger limit

def decr (c : RedisClient) (key : Bytes) : Except RedisStop (Int × RedisClient) :=
  (c.sendCommand [bytes "DECR", key]).readInteger limit

def del (c : RedisClient) (key : Bytes) : Except RedisStop (Bool × RedisClient) := do
  let (n, c) ← (c.sendCommand [bytes "DEL", key]).readInteger limit
  .ok (decide (n > 0), c)

def publish (c : RedisClient) (channel message : Bytes) : Except RedisStop (Int × RedisClient) :=
  (c.sendCommand [bytes "PUBLISH", channel, message]).readInteger limit

/-- What `psubscribe` hands to its callback of an array that arrives. -/
def pmessage : List Bytes → Option (Bytes × Bytes)
  | [kind, _, channel, message] => if kind = bytes "pmessage" then some (channel, message) else none
  | _ => none

end RedisClient

inductive RedisCall where
  | set (key value : Bytes)
  | get (key : Bytes)
  | incr (key : Bytes)
  | decr (key : Bytes)
  | del (key : Bytes)
  | publish (channel message : Bytes)

inductive RedisValue where
  | bool (b : Bool)
  | text (t : Option Bytes)
  | int (n : Int)
  deriving DecidableEq, Repr

def RedisClient.call (limit : Nat → Nat) (c : RedisClient) :
    RedisCall → Except RedisStop (RedisValue × RedisClient)
  | .set key value => do
    let (b, c) ← c.set limit key value
    .ok (.bool b, c)
  | .get key => do
    let (t, c) ← c.get limit key
    .ok (.text t, c)
  | .incr key => do
    let (n, c) ← c.incr limit key
    .ok (.int n, c)
  | .decr key => do
    let (n, c) ← c.decr limit key
    .ok (.int n, c)
  | .del key => do
    let (b, c) ← c.del limit key
    .ok (.bool b, c)
  | .publish channel message => do
    let (n, c) ← c.publish limit channel message
    .ok (.int n, c)

end Ryklys
