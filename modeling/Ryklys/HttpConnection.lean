import Ryklys.Server

/-!
# HttpConnection

`HttpConnection::OnReadable` and `OnWritable` as steps on the connection's
state. The socket is the environment: a call of `OnReadable` is given the
bytes its `recv` calls return and the result that ends them, a call of
`OnWritable` the results of its `send` calls.
-/

namespace Ryklys

open Search

inductive EpollInterest where
  | epollin
  | epollout
  deriving DecidableEq, Repr

inductive RecvStop where
  | eagain
  | error
  | eof
  deriving DecidableEq, Repr

/-- One call of `OnReadable`: what the `recv` calls return before the last. -/
structure Drain where
  chunks : List Bytes
  stop : RecvStop

inductive SendResult where
  | accepted (n : Nat)
  | eagain
  | error
  deriving DecidableEq, Repr

/-- What a `send` of `size` bytes takes: at least one and at most `size`. -/
def acceptCount (n size : Nat) : Nat := max 1 (min n size)

structure HttpConnection where
  readBuffer : Bytes := []
  responseQueue : List HttpResponse := []
  interest : EpollInterest := .epollin
  -- requests handed to `HandleRead` so far
  handled : List HttpRequest := []
  -- handshakes sent so far, with the request they answer
  upgrades : List (Bytes × HttpRequest) := []
  -- bytes of `OnWritable` the socket accepted so far
  wire : Bytes := []

/-! ## Reading -/

def drain : Bytes → List Bytes → Bytes
  | readBuffer, [] => readBuffer
  | readBuffer, chunk :: chunks => drain (readBuffer ++ chunk) chunks

theorem drain_eq : ∀ (readBuffer : Bytes) (chunks : List Bytes), drain readBuffer chunks = readBuffer ++ chunks.flatten
  | _, [] => by simp [drain]
  | readBuffer, chunk :: chunks => by simp [drain, drain_eq (readBuffer ++ chunk) chunks]

def clPos (headerSection : Bytes) : Option Nat :=
  (find (bytes "Content-Length:") headerSection).or (find (bytes "content-length:") headerSection)

/-- Phase 2, the number of body bytes announced. `substr` throws when no
character but blanks follows the name. -/
def contentLength (headerSection : Bytes) : Except Exn Nat :=
  match clPos headerSection with
  | none => .ok 0
  | some clPos =>
    match findFirstNotOf (bytes " \t") headerSection (clPos + 15) with
    | none => .error .outOfRange
    | some valStart =>
      let clStr := match findFrom crlf headerSection valStart with
        | some valEnd => (headerSection.drop valStart).take (valEnd - valStart)
        | none => headerSection.drop valStart
      .ok (fromChars clStr 0)

/-- Phases 2 and 3 up to `Parse`: the complete request at the front of the
buffer and what stays behind it, or nothing yet. -/
def cutRequest (readBuffer : Bytes) : Except Exn (Option (Bytes × Bytes)) :=
  match find crlfcrlf readBuffer with
  | none => .ok none
  | some headerEnd =>
    let bodyStart := headerEnd + 4
    match contentLength (readBuffer.take headerEnd) with
    | .error e => .error e
    | .ok contentLength =>
      let size := (bodyStart + contentLength) % sizeMod
      if readBuffer.length < size then .ok none
      else .ok (some (readBuffer.take size, readBuffer.drop size))

namespace HttpConnection

def answer (c : HttpConnection) : Answer → HttpConnection
  | .switching handshake request => { c with upgrades := c.upgrades ++ [(handshake, request)] }
  | .queued _ response => { c with responseQueue := c.responseQueue ++ [response], interest := .epollout }

def handleRead (S : ZvejysServer) (c : HttpConnection) (request : HttpRequest) : HttpConnection :=
  answer { c with handled := c.handled ++ [request] } (S.handleRead request)

@[simp] theorem handleRead_handled (S : ZvejysServer) (c : HttpConnection) (request : HttpRequest) :
    (c.handleRead S request).handled = c.handled ++ [request] := by
  unfold handleRead answer
  split <;> rfl

@[simp] theorem handleRead_readBuffer (S : ZvejysServer) (c : HttpConnection) (request : HttpRequest) :
    (c.handleRead S request).readBuffer = c.readBuffer := by
  unfold handleRead answer
  split <;> rfl

def onReadable (X : Externals) (S : ZvejysServer) (c : HttpConnection) (d : Drain) : HttpConnection × Option Exn :=
  let c := { c with readBuffer := drain c.readBuffer d.chunks }
  match d.stop with
  | .error => (c, none)
  | .eof => (c, none)
  | .eagain =>
    match cutRequest c.readBuffer with
    | .error e => (c, some e)
    | .ok none => (c, none)
    | .ok (some (completeRequest, rest)) =>
      let c := { c with readBuffer := rest }
      match parse X completeRequest with
      | .error e => (c, some e)
      | .ok request => (c.handleRead S request, none)

/-- A call as a step: the caller survives an exception, or there is no next call. -/
def readStep (X : Externals) (S : ZvejysServer) (c : HttpConnection) (d : Drain) : HttpConnection :=
  (c.onReadable X S d).1

end HttpConnection

/-! ## Writing -/

def serializeHeaders (headers : StrMap) : Bytes :=
  headers.entries.flatMap fun pair => pair.1 ++ bytes ": " ++ pair.2 ++ crlf

def serializeResponse (response : HttpResponse) : Bytes :=
  bytes "HTTP/1.1 " ++ Numeral.ofInt response.statusCode ++ bytes " " ++ response.statusText ++ crlf
    ++ serializeHeaders response.headers
    ++ bytes "Content-Length: " ++ Numeral.ofNat response.body.length ++ crlf
    ++ bytes "Connection: keep-alive\r\n" ++ crlf ++ response.body

/-- One call, given the results of its `send` calls; past the listed ones
`send` fails with EAGAIN. -/
def HttpConnection.onWritable (c : HttpConnection) : List SendResult → HttpConnection
  | [] =>
    match c.responseQueue with
    | [] => { c with interest := .epollin }
    | _ :: _ => c
  | result :: results =>
    match c.responseQueue with
    | [] => { c with interest := .epollin }
    | response :: queue =>
      match result with
      | .accepted n =>
        let data := serializeResponse response
        onWritable { c with responseQueue := queue, wire := c.wire ++ data.take (acceptCount n data.length) } results
      | .eagain => c
      | .error => c

end Ryklys
