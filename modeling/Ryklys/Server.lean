import Ryklys.Crypto
import Ryklys.HttpParse

/-!
# Routes, CORS and request dispatch

`RouteNode.h`, `cors/Cors.cpp`, the route tables of `ZvejysServer` and
`HttpConnection::HandleRead`. The vendored radix tree is a map whose `insert`
keeps an entry that is already there.
-/

namespace Ryklys

/-! ## CORS -/

/-- The sets are listed in their iteration order. -/
structure CorsConfig where
  allowedOrigins : List Bytes := []
  allowCredentials : Bool := false
  allowedMethods : List Bytes := []
  allowedHeaders : List Bytes := []
  maxAgeSeconds : Int := 0

def joinSet (set : List Bytes) : Bytes :=
  set.foldl (fun result item => (if result ≠ [] then result ++ bytes ", " else result) ++ item) []

structure Cors where
  config : CorsConfig
  allowedMethodHeader : Bytes
  allowedHeadersHeader : Bytes

namespace Cors

def ofConfig (config : CorsConfig) : Cors :=
  ⟨config, joinSet config.allowedMethods, joinSet config.allowedHeaders⟩

def originKey : Bytes := bytes "Access-Control-Allow-Origin"
def methodsKey : Bytes := bytes "Access-Control-Allow-Methods"
def headersKey : Bytes := bytes "Access-Control-Allow-Headers"
def credentialsKey : Bytes := bytes "Access-Control-Allow-Credentials"
def maxAgeKey : Bytes := bytes "Access-Control-Max-Age"

variable (C : Cors)

def isOriginValid (req : HttpRequest) : Bool :=
  match req.headers.lookup (bytes "Origin") with
  | none => false
  | some origin =>
    if bytes "*" ∈ C.config.allowedOrigins then true else decide (origin ∈ C.config.allowedOrigins)

def handlePreflight (request : HttpRequest) : Option HttpResponse :=
  match C.isOriginValid request, request.headers.lookup (bytes "Origin") with
  | true, some origin =>
    let response := HttpResponse.noContent
    some { response with
      headers := ((((response.headers.insert originKey origin).insert methodsKey C.allowedMethodHeader).insert
        headersKey C.allowedHeadersHeader).insert credentialsKey
          (if C.config.allowCredentials then bytes "true" else bytes "false")).insert
            maxAgeKey (Numeral.ofInt C.config.maxAgeSeconds) }
  | _, _ => none

def applyCorsHeaders (req : HttpRequest) (res : HttpResponse) : Bool × HttpResponse :=
  match C.isOriginValid req, req.headers.lookup (bytes "Origin") with
  | true, some origin =>
    let h := res.headers.insert originKey origin
    let h := if C.allowedMethodHeader ≠ [] then h.insert methodsKey C.allowedMethodHeader else h
    let h := if C.allowedHeadersHeader ≠ [] then h.insert headersKey C.allowedHeadersHeader else h
    let h := if C.config.allowCredentials then h.insert credentialsKey (bytes "true") else h
    let h := if C.config.maxAgeSeconds > 0 then h.insert maxAgeKey (Numeral.ofInt C.config.maxAgeSeconds) else h
    (true, { res with headers := h })
  | _, _ => (false, res)

theorem applyCorsHeaders_statusCode (req : HttpRequest) (res : HttpResponse) :
    (C.applyCorsHeaders req res).2.statusCode = res.statusCode := by
  unfold applyCorsHeaders
  split <;> rfl

theorem applyCorsHeaders_body (req : HttpRequest) (res : HttpResponse) :
    (C.applyCorsHeaders req res).2.body = res.body := by
  unfold applyCorsHeaders
  split <;> rfl

end Cors

/-! ## Route nodes -/

abbrev HttpHandler := HttpRequest → Except Exn HttpResponse
abbrev AuthenticatedHttpHandler := HttpRequest → AuthenticatedUser → Except Exn HttpResponse
abbrev ExtractAuthUserFromRequest := HttpRequest → Except Exn (Option AuthenticatedUser)

/-- The handler of a `RouteNode` or of an `AuthenticatedRouteNode`; `none` is
an empty `std::function`. -/
inductive RouteHandler where
  | route (handler : Option HttpHandler)
  | authenticated (handler : Option AuthenticatedHttpHandler)

/-- A node made by a registration; `id` tells the objects apart. -/
structure PathTreeNode where
  id : Nat
  routeMethod : HttpMethod
  handler : RouteHandler

def PathTreeNode.handleRequest (authFunc : Option ExtractAuthUserFromRequest) (node : PathTreeNode)
    (request : HttpRequest) : Except Exn HttpResponse :=
  match node.handler with
  | .route (some handler) => handler request
  | .authenticated (some handler) =>
    match authFunc with
    | none => .error .badFunctionCall
    | some authFunc => do
      match ← authFunc request with
      | none => return .unauthorized (bytes "Invalid or missing token")
      | some user => handler request user
  | _ => .ok (.internalServerError (bytes "Handler not implemented"))

/-! ## Route tables -/

structure ZvejysServer where
  routeMap : AList fun _ : Bytes => PathTreeNode
  patternRoutes : List (Bytes × PathTreeNode)
  cors : Cors
  authFunc : Option ExtractAuthUserFromRequest
  -- how many nodes were made so far
  nodes : Nat

def ZvejysServer.new (config : CorsConfig) (authFunc : Option ExtractAuthUserFromRequest) : ZvejysServer :=
  ⟨∅, [], Cors.ofConfig config, authFunc, 0⟩

def isPatternPath (path : Bytes) : Bool := (Search.find [0x7b] path).isSome

namespace ZvejysServer

def register (S : ZvejysServer) (method : HttpMethod) (path : Bytes) (handler : RouteHandler) : ZvejysServer :=
  let node : PathTreeNode := ⟨S.nodes, method, handler⟩
  if isPatternPath path then
    { S with patternRoutes := S.patternRoutes ++ [(path, node)], nodes := S.nodes + 1 }
  else
    { S with routeMap := if path ∈ S.routeMap then S.routeMap else S.routeMap.insert path node,
             nodes := S.nodes + 1 }

def registerRoute (S : ZvejysServer) (method : HttpMethod) (path : Bytes) (handler : Option HttpHandler) :
    ZvejysServer :=
  S.register method path (.route handler)

def registerAuthenticatedRoute (S : ZvejysServer) (method : HttpMethod) (path : Bytes)
    (handler : Option AuthenticatedHttpHandler) : ZvejysServer :=
  S.register method path (.authenticated handler)

def segments (s : Bytes) : List Bytes := (s.splitOn 0x2f).filter (· ≠ [])

def isPlaceholder (part : Bytes) : Bool := part.head? == some 0x7b && part.getLast? == some 0x7d

def placeholderName (part : Bytes) : Bytes := (part.drop 1).take (part.length - 2)

def matchParts : List (Bytes × Bytes) → StrMap → Bool × StrMap
  | [], params => (true, params)
  | (patternPart, pathPart) :: parts, params =>
    if isPlaceholder patternPart then matchParts parts (params.insert (placeholderName patternPart) pathPart)
    else if patternPart ≠ pathPart then (false, params)
    else matchParts parts params

def matchPattern (pattern path : Bytes) (params : StrMap) : Bool × StrMap :=
  let patternParts := segments pattern
  let pathParts := segments path
  if patternParts.length ≠ pathParts.length then (false, params)
  else matchParts (patternParts.zip pathParts) params

end ZvejysServer

/-! ## HandleRead -/

def isWsUpgrade (request : HttpRequest) : Bool :=
  decide (request.method = .GET)
    && decide (request.headers.lookup (bytes "Upgrade") = some (bytes "websocket"))
    && (request.headers.lookup (bytes "Connection")).isSome
    && (request.headers.lookup (bytes "Sec-WebSocket-Key")).isSome

def isCorsPreflight (request : HttpRequest) : Bool :=
  decide (request.method = .OPTIONS)
    && (request.headers.lookup (bytes "Origin")).isSome
    && (request.headers.lookup (bytes "Access-Control-Request-Method")).isSome

/-- How `HandleRead` answers one request: with the handshake it sends at once
before the connection is swapped, or with a response it queues. `ran` is the
node whose `HandleRequest` was called. -/
inductive Answer where
  | switching (handshake : Bytes) (request : HttpRequest)
  | queued (ran : Option Nat) (response : HttpResponse)

def Answer.ran : Answer → Option Nat
  | .switching _ _ => none
  | .queued ran _ => ran

def handshakeResponse (acceptKey : Bytes) : Bytes :=
  bytes "HTTP/1.1 101 Switching Protocols\r\nUpgrade: websocket\r\nConnection: Upgrade\r\nSec-WebSocket-Accept: "
    ++ acceptKey ++ crlfcrlf

namespace ZvejysServer

variable (S : ZvejysServer)

def patternLoop (request : HttpRequest) : List (Bytes × PathTreeNode) → Option Nat × Except Exn HttpResponse
  | [] => (none, .ok (.notFound (bytes "Route not found")))
  | (pattern, node) :: routes =>
    let matched := matchPattern pattern request.path ∅
    if matched.1 && decide (node.routeMethod = request.method) then
      (some node.id, node.handleRequest S.authFunc { request with pathParams := matched.2 })
    else patternLoop request routes

/-- The `try` block: the exact path first, then the pattern routes in order. -/
def dispatch (request : HttpRequest) : Option Nat × Except Exn HttpResponse :=
  match S.routeMap.lookup request.path with
  | some node => (some node.id, node.handleRequest S.authFunc request)
  | none => S.patternLoop request S.patternRoutes

def handleRead (request : HttpRequest) : Answer :=
  if isWsUpgrade request then
    let key := (request.headers.lookup (bytes "Sec-WebSocket-Key")).getD []
    .switching (handshakeResponse (wsCrypto.computeAcceptKey key)) request
  else if isCorsPreflight request then
    .queued none ((S.cors.handlePreflight request).getD
      (.forbidden (bytes "CORS preflight failed: Origin not allowed")))
  else
    let response := match (S.dispatch request).2 with
      | .ok response => response
      | .error _ => .internalServerError (bytes "Internal server error")
    .queued (S.dispatch request).1 (S.cors.applyCorsHeaders request response).2

/-! ## The node that is called -/

def patternNode (request : HttpRequest) : List (Bytes × PathTreeNode) → Option (PathTreeNode × HttpRequest)
  | [] => none
  | (pattern, node) :: routes =>
    let matched := matchPattern pattern request.path ∅
    if matched.1 && decide (node.routeMethod = request.method) then
      some (node, { request with pathParams := matched.2 })
    else patternNode request routes

/-- The node whose `HandleRequest` `HandleRead` calls, and the request it is called with. -/
def called (request : HttpRequest) : Option (PathTreeNode × HttpRequest) :=
  if isWsUpgrade request || isCorsPreflight request then none
  else
    match S.routeMap.lookup request.path with
    | some node => some (node, request)
    | none => patternNode request S.patternRoutes

theorem patternLoop_of_patternNode {request r : HttpRequest} {node : PathTreeNode} :
    ∀ {routes : List (Bytes × PathTreeNode)}, patternNode request routes = some (node, r) →
      S.patternLoop request routes = (some node.id, node.handleRequest S.authFunc r)
  | [], h => by cases h
  | (pattern, node') :: routes, h => by
    rw [patternNode] at h
    rw [patternLoop]
    split at h
    · rename_i hm
      cases h
      rw [if_pos hm]
    · rename_i hm
      rw [if_neg hm]
      exact patternLoop_of_patternNode h

theorem handleRead_of_called {request r : HttpRequest} {node : PathTreeNode} (h : S.called request = some (node, r)) :
    S.handleRead request = .queued (some node.id) (S.cors.applyCorsHeaders request
      (match node.handleRequest S.authFunc r with
        | .ok response => response
        | .error _ => .internalServerError (bytes "Internal server error"))).2 := by
  unfold called at h
  split at h
  · cases h
  · rename_i hn
    simp only [Bool.or_eq_true, not_or] at hn
    have hd : S.dispatch request = (some node.id, node.handleRequest S.authFunc r) := by
      unfold dispatch
      split at h
      · cases h
        rfl
      · exact S.patternLoop_of_patternNode h
    rw [handleRead, if_neg hn.1, if_neg hn.2, hd]

end ZvejysServer

end Ryklys
