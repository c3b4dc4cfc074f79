import Ryklys.CookieAuth
import Ryklys.RequestText
import Ryklys.Server

/-!
# Header names are looked up in one spelling

Every consumer of the headers asks for one spelling of a name; the framing
asks for two. Two requests that differ only in the case of field names are
treated alike, whatever the server, exactly when they announce the same length
and the consulted names have values that decide alike (`header_case_iff`).
-/

namespace Ryklys

open Search

/-! ## Decisions -/

/-- What `HandleRead` takes from a request: the key of an upgrade; else the
origin of a preflight that is allowed; else the node with its path parameters,
the body parameters and the origin. The user is the one of the cookie. -/
inductive Decision where
  | upgrade (key : Bytes) (user : Option AuthenticatedUser)
  | preflight (origin : Option Bytes)
  | route (node : Option (Nat × StrMap)) (bodyParams : StrMap) (origin : Option Bytes) (user : Option AuthenticatedUser)

namespace Decision

def isUpgrade : Decision → Bool
  | .upgrade _ _ => true
  | _ => false

def isPreflight : Decision → Bool
  | .preflight _ => true
  | _ => false

end Decision

def Cors.allowedOrigin (C : Cors) (request : HttpRequest) : Option Bytes :=
  if C.isOriginValid request then request.headers.lookup (bytes "Origin") else none

namespace ZvejysServer

variable (S : ZvejysServer) (jwtSecret : Option Bytes) (now : Int)

def decision (request : HttpRequest) : Decision :=
  let user := extractAuthenticatedUserFromRequest jwtSecret now request
  if isWsUpgrade request then
    .upgrade ((request.headers.lookup (bytes "Sec-WebSocket-Key")).getD []) user
  else if isCorsPreflight request then .preflight (S.cors.allowedOrigin request)
  else
    .route ((S.called request).map fun p => (p.1.id, p.2.pathParams)) request.bodyParams
      (S.cors.allowedOrigin request) user

/-- What a call of `OnReadable` does with a buffer: how many bytes it cuts off,
and the decision on the request in them. -/
def treatment (X : Externals) (buf : Bytes) : Except Exn (Option (Nat × Except Exn Decision)) :=
  match cutRequest buf with
  | .error e => .error e
  | .ok none => .ok none
  | .ok (some (completeRequest, _)) =>
    .ok (some (completeRequest.length, (parse X completeRequest).map (S.decision jwtSecret now)))

end ZvejysServer

/-! ## The answer is the decision's -/

namespace Cors

variable {C : Cors} {r r' : HttpRequest}

theorem allowedOrigin_eq_none : C.allowedOrigin r = none ↔ C.isOriginValid r = false := by
  unfold allowedOrigin
  cases hv : C.isOriginValid r with
  | false => simp
  | true =>
    unfold isOriginValid at hv
    cases ho : r.headers.lookup (bytes "Origin") with
    | none =>
      rw [ho] at hv
      cases hv
    | some origin => simp

theorem applyCorsHeaders_none (h : C.allowedOrigin r = none) (res : HttpResponse) :
    C.applyCorsHeaders r res = (false, res) := by
  unfold applyCorsHeaders
  rw [allowedOrigin_eq_none.mp h]

theorem allowedOrigin_some {origin : Bytes} (h : C.allowedOrigin r = some origin) :
    C.isOriginValid r = true ∧ r.headers.lookup (bytes "Origin") = some origin := by
  unfold allowedOrigin at h
  split at h
  · rename_i hv
    exact ⟨hv, h⟩
  · cases h

theorem applyCorsHeaders_congr (h : C.allowedOrigin r = C.allowedOrigin r') (res : HttpResponse) :
    C.applyCorsHeaders r res = C.applyCorsHeaders r' res := by
  cases ho : C.allowedOrigin r with
  | none => rw [applyCorsHeaders_none ho, applyCorsHeaders_none (h ▸ ho)]
  | some origin =>
    obtain ⟨hv, hl⟩ := allowedOrigin_some ho
    obtain ⟨hv', hl'⟩ := allowedOrigin_some (h ▸ ho)
    unfold applyCorsHeaders
    rw [hv, hl, hv', hl']

theorem handlePreflight_congr (h : C.allowedOrigin r = C.allowedOrigin r') :
    C.handlePreflight r = C.handlePreflight r' := by
  cases ho : C.allowedOrigin r with
  | none =>
    unfold handlePreflight
    rw [allowedOrigin_eq_none.mp ho, allowedOrigin_eq_none.mp (h ▸ ho)]
  | some origin =>
    obtain ⟨hv, hl⟩ := allowedOrigin_some ho
    obtain ⟨hv', hl'⟩ := allowedOrigin_some (h ▸ ho)
    unfold handlePreflight
    rw [hv, hl, hv', hl']

end Cors

namespace ZvejysServer

variable (S : ZvejysServer) (jwtSecret : Option Bytes) (now : Int) {r r' : HttpRequest}

theorem decision_upgrade (hu : isWsUpgrade r = true) :
    S.decision jwtSecret now r = .upgrade ((r.headers.lookup (bytes "Sec-WebSocket-Key")).getD [])
      (extractAuthenticatedUserFromRequest jwtSecret now r) := by
  rw [decision, if_pos hu]

theorem decision_preflight (hu : isWsUpgrade r = false) (hp : isCorsPreflight r = true) :
    S.decision jwtSecret now r = .preflight (S.cors.allowedOrigin r) := by
  rw [decision, hu, if_neg Bool.false_ne_true, if_pos hp]

theorem decision_route (hu : isWsUpgrade r = false) (hp : isCorsPreflight r = false) :
    S.decision jwtSecret now r = .route ((S.called r).map fun p => (p.1.id, p.2.pathParams)) r.bodyParams
      (S.cors.allowedOrigin r) (extractAuthenticatedUserFromRequest jwtSecret now r) := by
  rw [decision, hu, if_neg Bool.false_ne_true, hp, if_neg Bool.false_ne_true]

theorem decision_isUpgrade (r : HttpRequest) : (S.decision jwtSecret now r).isUpgrade = isWsUpgrade r := by
  unfold decision
  cases isWsUpgrade r <;> cases isCorsPreflight r <;> rfl

theorem decision_isPreflight (r : HttpRequest) :
    (S.decision jwtSecret now r).isPreflight = (!isWsUpgrade r && isCorsPreflight r) := by
  unfold decision
  cases isWsUpgrade r <;> cases isCorsPreflight r <;> rfl

theorem patternLoop_of_patternNode_none {request : HttpRequest} {routes : List (Bytes × PathTreeNode)}
    (h : patternNode request routes = none) :
    S.patternLoop request routes = (none, .ok (.notFound (bytes "Route not found"))) := by
  induction routes with
  | nil => rfl
  | cons entry routes ih =>
    rw [patternNode] at h
    rw [patternLoop]
    split at h
    · cases h
    · rename_i hm
      rw [if_neg hm]
      exact ih h

theorem ran_handleRead (r : HttpRequest) :
    (S.handleRead r).ran = (S.called r).map fun p => p.1.id := by
  cases hc : S.called r with
  | some p =>
    rw [S.handleRead_of_called hc]
    rfl
  | none =>
    unfold handleRead
    cases hu : isWsUpgrade r with
    | true => rfl
    | false =>
      cases hp : isCorsPreflight r with
      | true => rfl
      | false =>
        unfold called at hc
        rw [hu, hp] at hc
        have hd : (S.dispatch r).1 = none := by
          unfold dispatch
          cases hl : S.routeMap.lookup r.path with
          | some node =>
            rw [hl] at hc
            cases hc
          | none =>
            rw [hl] at hc
            rw [S.patternLoop_of_patternNode_none hc]
        exact hd

def SameAnswer : Answer → Answer → Prop
  | .switching handshake _, .switching handshake' _ => handshake = handshake'
  | .queued ran _, .queued ran' _ => ran = ran'
  | _, _ => False

/-- Requests with the same decision get the same kind of answer: the same
handshake, or a response of the same node with the same CORS headers. -/
theorem answer_of_decision (h : S.decision jwtSecret now r = S.decision jwtSecret now r') :
    SameAnswer (S.handleRead r) (S.handleRead r') ∧
      (isWsUpgrade r = false → ∀ res, S.cors.applyCorsHeaders r res = S.cors.applyCorsHeaders r' res) ∧
      (isCorsPreflight r = true → isWsUpgrade r = false → S.handleRead r = S.handleRead r') := by
  have hu := congrArg Decision.isUpgrade h
  have hp := congrArg Decision.isPreflight h
  rw [S.decision_isUpgrade, S.decision_isUpgrade] at hu
  rw [S.decision_isPreflight, S.decision_isPreflight, ← hu] at hp
  cases hw : isWsUpgrade r with
  | true =>
    rw [hw] at hu
    rw [S.decision_upgrade _ _ hw, S.decision_upgrade _ _ hu.symm, Decision.upgrade.injEq] at h
    refine ⟨?_, (fun hf => by cases hf), fun _ hf => by cases hf⟩
    simp only [handleRead, hw, ← hu, if_true, SameAnswer, h.1]
  | false =>
    rw [hw] at hu hp
    rw [Bool.not_false, Bool.true_and, Bool.true_and] at hp
    cases hc : isCorsPreflight r with
    | true =>
      rw [hc] at hp
      rw [S.decision_preflight _ _ hw hc, S.decision_preflight _ _ hu.symm hp.symm, Decision.preflight.injEq] at h
      have ha : S.handleRead r = S.handleRead r' := by
        simp [handleRead, hw, ← hu, hc, ← hp, Cors.handlePreflight_congr h]
      refine ⟨?_, fun _ => Cors.applyCorsHeaders_congr h, fun _ _ => ha⟩
      rw [← ha]
      simp [handleRead, hw, hc, SameAnswer]
    | false =>
      rw [hc] at hp
      rw [S.decision_route _ _ hw hc, S.decision_route _ _ hu.symm hp.symm, Decision.route.injEq] at h
      refine ⟨?_, fun _ => Cors.applyCorsHeaders_congr h.2.2.1, fun hf => by cases hf⟩
      have hran : (S.handleRead r).ran = (S.handleRead r').ran := by
        have hid := congrArg (Option.map Prod.fst) h.1
        rw [Option.map_map, Option.map_map] at hid
        rw [S.ran_handleRead, S.ran_handleRead]
        exact hid
      simpa [handleRead, hw, ← hu, hc, ← hp, SameAnswer, Answer.ran] using hran

end ZvejysServer

/-- A call of `OnReadable` does with the buffer what `treatment` says. -/
theorem onReadable_treatment (S : ZvejysServer) (jwtSecret : Option Bytes) (now : Int) (X : Externals)
    (c : HttpConnection) (chunks : List Bytes) {buf : Bytes} (hbuf : c.readBuffer ++ chunks.flatten = buf) :
    match S.treatment jwtSecret now X buf with
    | .error e => c.onReadable X S ⟨chunks, .eagain⟩ = ({ c with readBuffer := buf }, some e)
    | .ok none => c.onReadable X S ⟨chunks, .eagain⟩ = ({ c with readBuffer := buf }, none)
    | .ok (some (n, .error e)) => c.onReadable X S ⟨chunks, .eagain⟩ = ({ c with readBuffer := buf.drop n }, some e)
    | .ok (some (n, .ok d)) => ∃ request, S.decision jwtSecret now request = d ∧
        c.onReadable X S ⟨chunks, .eagain⟩ = ({ c with readBuffer := buf.drop n }.handleRead S request, none) := by
  unfold ZvejysServer.treatment
  rw [onReadable_eagain, hbuf]
  cases hf : find crlfcrlf buf with
  | none => rw [cutRequest_none hf]
  | some headerEnd =>
    rw [cutRequest_eq hf]
    by_cases hb : BlankLength (buf.take headerEnd)
    · rw [if_pos hb]
    · rw [if_neg hb]
      by_cases hs : buf.length < requestSize (buf.take headerEnd)
      · rw [if_pos hs]
      · simp only [if_neg hs, List.length_take, Nat.min_eq_left (Nat.le_of_not_lt hs)]
        cases parse X (buf.take (requestSize (buf.take headerEnd))) with
        | error e => rfl
        | ok request => exact ⟨request, rfl, rfl⟩

/-! ## What the fields decide -/

abbrev Values := Bytes → Option Bytes

namespace Values

variable (V : Values) (m : HttpMethod)

def upgrades : Bool :=
  decide (m = .GET) && decide (V (bytes "Upgrade") = some (bytes "websocket"))
    && (V (bytes "Connection")).isSome && (V (bytes "Sec-WebSocket-Key")).isSome

def preflights : Bool :=
  decide (m = .OPTIONS) && (V (bytes "Origin")).isSome && (V (bytes "Access-Control-Request-Method")).isSome

def sendsJson : Bool := (V (bytes "Content-Type")).any fun ct => (find (bytes "application/json") ct).isSome

def token : Bytes :=
  match V (bytes "Cookie") with
  | some cookie => tokenOf cookie
  | none => []

theorem preflights_of_upgrades {V : Values} {m : HttpMethod} (h : V.upgrades m = true) : V.preflights m = false := by
  simp only [upgrades, Bool.and_eq_true, decide_eq_true_eq] at h
  rw [h.1.1.1]
  rfl

end Values

def valuesOf (request : HttpRequest) : Values := fun name => request.headers.lookup name

def Cors.Allows (C : Cors) (origin : Bytes) : Prop :=
  bytes "*" ∈ C.config.allowedOrigins ∨ origin ∈ C.config.allowedOrigins

def jsonParams (X : Externals) (body : Bytes) : StrMap :=
  if body = [] then ∅
  else
    match X.jsonItems body with
    | .ok items => collectParams items ∅
    | .error _ => ∅

def tokenUser (jwtSecret : Option Bytes) (now : Int) (token : Bytes) : Option AuthenticatedUser :=
  jwtSecret.bind fun secret => userOf secret now token

theorem Cors.allowedOrigin_eq_some {C : Cors} {r : HttpRequest} {origin : Bytes} :
    C.allowedOrigin r = some origin ↔ C.Allows origin ∧ valuesOf r (bytes "Origin") = some origin := by
  unfold allowedOrigin isOriginValid valuesOf Allows
  cases ho : r.headers.lookup (bytes "Origin") with
  | none => simp
  | some o =>
    by_cases hstar : bytes "*" ∈ C.config.allowedOrigins
    · simp [hstar]
    · by_cases hmem : o ∈ C.config.allowedOrigins
      · simp only [hstar, hmem, if_false, decide_true, if_true, Option.some.injEq, false_or]
        constructor
        · intro he
          exact ⟨he ▸ hmem, he⟩
        · exact And.right
      · simp only [hstar, hmem, if_false, decide_false, Bool.false_eq_true, Option.some.injEq, false_or, reduceCtorEq,
          false_iff, not_and]
        intro hin he
        exact hmem (he ▸ hin)

theorem Cors.allowedOrigin_eq_iff {C : Cors} {r r' : HttpRequest} :
    C.allowedOrigin r = C.allowedOrigin r' ↔ ∀ origin, C.Allows origin →
      (valuesOf r (bytes "Origin") = some origin ↔ valuesOf r' (bytes "Origin") = some origin) := by
  constructor
  · intro h origin ho
    have hiff : C.allowedOrigin r = some origin ↔ C.allowedOrigin r' = some origin := by rw [h]
    simpa [Cors.allowedOrigin_eq_some, ho] using hiff
  · intro h
    refine Option.ext fun origin => ?_
    rw [Cors.allowedOrigin_eq_some, Cors.allowedOrigin_eq_some]
    exact and_congr_right (h origin)

theorem bodyParams_eq (X : Externals) (r : HttpRequest) (body : Bytes) :
    bodyParams X r.headers body = if (valuesOf r).sendsJson then jsonParams X body else ∅ := by
  unfold bodyParams Values.sendsJson valuesOf jsonParams
  cases r.headers.lookup (bytes "Content-Type") with
  | none => rfl
  | some ct =>
    by_cases hb : body = []
    · simp [hb]
    · by_cases hj : (find (bytes "application/json") ct).isSome
      · cases X.jsonItems body <;> simp [hj, hb]
      · simp [hj]

theorem extract_eq_tokenUser (jwtSecret : Option Bytes) (now : Int) (r : HttpRequest) :
    extractAuthenticatedUserFromRequest jwtSecret now r = tokenUser jwtSecret now (valuesOf r).token := by
  have hnil : tokenUser jwtSecret now [] = none := by cases jwtSecret <;> rfl
  change (if (valuesOf r).token = [] then none else _) = _
  by_cases hempty : (valuesOf r).token = []
  · rw [if_pos hempty, hempty, hnil]
  · rw [if_neg hempty]
    cases jwtSecret <;> rfl

/-- What the exactly named fields of two requests with this method and body decide is the same. -/
structure DecideAlike (S : ZvejysServer) (jwtSecret : Option Bytes) (now : Int) (X : Externals) (m : HttpMethod)
    (body : Bytes) (V V' : Values) : Prop where
  upgrade : V.upgrades m = V'.upgrades m
  key : V.upgrades m = true → V (bytes "Sec-WebSocket-Key") = V' (bytes "Sec-WebSocket-Key")
  preflight : V.preflights m = V'.preflights m
  origin : V.upgrades m = false → ∀ origin, S.cors.Allows origin →
    (V (bytes "Origin") = some origin ↔ V' (bytes "Origin") = some origin)
  json : V.upgrades m = false → V.preflights m = false → V.sendsJson = V'.sendsJson ∨ jsonParams X body = ∅
  user : V.preflights m = false → tokenUser jwtSecret now V.token = tokenUser jwtSecret now V'.token

def consulted : List Bytes :=
  [bytes "Upgrade", bytes "Connection", bytes "Sec-WebSocket-Key", bytes "Origin",
    bytes "Access-Control-Request-Method", bytes "Content-Type", bytes "Cookie"]

section
variable (S : ZvejysServer) (jwtSecret : Option Bytes) (now : Int) (X : Externals)

theorem decideAlike_of_consulted (m : HttpMethod) (body : Bytes) {V V' : Values}
    (h : ∀ name ∈ consulted, V name = V' name) : DecideAlike S jwtSecret now X m body V V' := by
  have hu : V.upgrades m = V'.upgrades m := by
    unfold Values.upgrades
    rw [h _ (by simp [consulted]), h (bytes "Connection") (by simp [consulted]), h (bytes "Sec-WebSocket-Key") (by simp [consulted])]
  have hp : V.preflights m = V'.preflights m := by
    unfold Values.preflights
    rw [h _ (by simp [consulted]), h (bytes "Access-Control-Request-Method") (by simp [consulted])]
  have hj : V.sendsJson = V'.sendsJson := by
    unfold Values.sendsJson
    rw [h _ (by simp [consulted])]
  have ht : V.token = V'.token := by
    unfold Values.token
    rw [h _ (by simp [consulted])]
  exact ⟨hu, fun _ => h _ (by simp [consulted]), hp, fun _ origin _ => by rw [h _ (by simp [consulted])], fun _ _ => .inl hj,
    fun _ => by rw [ht]⟩

/-- The requests differ in their headers only, and in the parameters of the body these give. -/
structure SameButHeaders (r r' : HttpRequest) : Prop where
  same : r' = { r with headers := r'.headers, bodyParams := r'.bodyParams }
  params : r.bodyParams = bodyParams X r.headers r.body
  params' : r'.bodyParams = bodyParams X r'.headers r.body

variable {S jwtSecret now X} {r r' : HttpRequest}

theorem patternNode_same (h : SameButHeaders X r r') (routes : List (Bytes × PathTreeNode)) :
    (ZvejysServer.patternNode r routes).map (fun p => (p.1.id, p.2.pathParams)) =
      (ZvejysServer.patternNode r' routes).map fun p => (p.1.id, p.2.pathParams) := by
  have hpath : r'.path = r.path := by rw [h.same]
  have hm : r'.method = r.method := by rw [h.same]
  induction routes with
  | nil => rfl
  | cons entry routes ih =>
    simp only [ZvejysServer.patternNode, hpath, hm]
    split
    · rfl
    · exact ih

theorem called_same (h : SameButHeaders X r r') (hu : isWsUpgrade r = false) (hp : isCorsPreflight r = false)
    (hu' : isWsUpgrade r' = false) (hp' : isCorsPreflight r' = false) :
    (S.called r).map (fun p => (p.1.id, p.2.pathParams)) = (S.called r').map fun p => (p.1.id, p.2.pathParams) := by
  have hpath : r'.path = r.path := by rw [h.same]
  have hparams : r'.pathParams = r.pathParams := by rw [h.same]
  unfold ZvejysServer.called
  rw [hu, hp, hu', hp', hpath]
  cases S.routeMap.lookup r.path with
  | some node => simp [hparams]
  | none => exact patternNode_same h S.patternRoutes

theorem jsonParams_same_iff (h : SameButHeaders X r r') :
    r.bodyParams = r'.bodyParams ↔ (valuesOf r).sendsJson = (valuesOf r').sendsJson ∨ jsonParams X r.body = ∅ := by
  rw [h.params, h.params', bodyParams_eq, bodyParams_eq]
  cases (valuesOf r).sendsJson <;> cases (valuesOf r').sendsJson <;> simp [eq_comm]

theorem isWsUpgrade_eq (r : HttpRequest) : isWsUpgrade r = (valuesOf r).upgrades r.method := rfl

theorem isCorsPreflight_eq (r : HttpRequest) : isCorsPreflight r = (valuesOf r).preflights r.method := rfl

theorem key_of_upgrades {V V' : Values} {m : HttpMethod} (hu : V.upgrades m = true) (hu' : V'.upgrades m = true) :
    (V (bytes "Sec-WebSocket-Key")).getD [] = (V' (bytes "Sec-WebSocket-Key")).getD [] ↔
      V (bytes "Sec-WebSocket-Key") = V' (bytes "Sec-WebSocket-Key") := by
  simp only [Values.upgrades, Bool.and_eq_true, Option.isSome_iff_exists] at hu hu'
  obtain ⟨key, hk⟩ := hu.2
  obtain ⟨key', hk'⟩ := hu'.2
  rw [hk, hk', Option.getD_some, Option.getD_some, Option.some.injEq]

theorem decision_eq_iff_of_kind (h : SameButHeaders X r r')
    (hu : (valuesOf r).upgrades r.method = (valuesOf r').upgrades r.method)
    (hp : (valuesOf r).preflights r.method = (valuesOf r').preflights r.method) :
    S.decision jwtSecret now r = S.decision jwtSecret now r' ↔
      DecideAlike S jwtSecret now X r.method r.body (valuesOf r) (valuesOf r') := by
  have hm : r'.method = r.method := by rw [h.same]
  have hu' : isWsUpgrade r' = (valuesOf r').upgrades r.method := by rw [isWsUpgrade_eq, hm]
  have hp' : isCorsPreflight r' = (valuesOf r').preflights r.method := by rw [isCorsPreflight_eq, hm]
  cases hw : (valuesOf r).upgrades r.method with
  | true =>
    have hnp := Values.preflights_of_upgrades hw
    rw [S.decision_upgrade _ _ hw, S.decision_upgrade _ _ (hu'.trans (hu.symm.trans hw)), Decision.upgrade.injEq,
      extract_eq_tokenUser, extract_eq_tokenUser]
    have hkey := key_of_upgrades hw (hu.symm.trans hw)
    constructor
    · intro ⟨hk, huser⟩
      exact ⟨hu, fun _ => hkey.mp hk, hp, fun hn => by simp [hw] at hn, fun hn => by simp [hw] at hn, fun _ => huser⟩
    · intro hd
      exact ⟨hkey.mpr (hd.key hw), hd.user hnp⟩
  | false =>
    have hw' := hu'.trans (hu.symm.trans hw)
    cases hc : (valuesOf r).preflights r.method with
    | true =>
      rw [S.decision_preflight _ _ hw hc, S.decision_preflight _ _ hw' (hp'.trans (hp.symm.trans hc)),
        Decision.preflight.injEq, Cors.allowedOrigin_eq_iff]
      constructor
      · intro ho
        exact ⟨hu, fun hn => by simp [hw] at hn, hp, fun _ => ho, fun _ hn => by simp [hc] at hn,
          fun hn => by simp [hc] at hn⟩
      · intro hd
        exact hd.origin hw
    | false =>
      have hc' := hp'.trans (hp.symm.trans hc)
      rw [S.decision_route _ _ hw hc, S.decision_route _ _ hw' hc', Decision.route.injEq, Cors.allowedOrigin_eq_iff,
        jsonParams_same_iff h, extract_eq_tokenUser, extract_eq_tokenUser]
      constructor
      · intro ⟨_, hj, ho, huser⟩
        exact ⟨hu, fun hn => by simp [hw] at hn, hp, fun _ => ho, fun _ _ => hj, fun _ => huser⟩
      · intro hd
        exact ⟨called_same h hw hc hw' hc', hd.json hw hc, hd.origin hw, hd.user hc⟩

theorem kind_of_decision (h : SameButHeaders X r r')
    (hd : S.decision jwtSecret now r = S.decision jwtSecret now r') :
    (valuesOf r).upgrades r.method = (valuesOf r').upgrades r.method ∧
      (valuesOf r).preflights r.method = (valuesOf r').preflights r.method := by
  have hm : r'.method = r.method := by rw [h.same]
  have hu := congrArg Decision.isUpgrade hd
  have hp := congrArg Decision.isPreflight hd
  rw [S.decision_isUpgrade, S.decision_isUpgrade, isWsUpgrade_eq, isWsUpgrade_eq, hm] at hu
  rw [S.decision_isPreflight, S.decision_isPreflight, isWsUpgrade_eq, isWsUpgrade_eq, isCorsPreflight_eq,
    isCorsPreflight_eq, hm, ← hu] at hp
  refine ⟨hu, ?_⟩
  cases hw : (valuesOf r).upgrades r.method with
  | true => rw [Values.preflights_of_upgrades hw, Values.preflights_of_upgrades (hu.symm.trans hw)]
  | false => simpa [hw] using hp

/-- **One decision.** Requests that differ in their headers only are decided
alike exactly when their named fields are. -/
theorem decision_eq_iff (h : SameButHeaders X r r') :
    S.decision jwtSecret now r = S.decision jwtSecret now r' ↔
      DecideAlike S jwtSecret now X r.method r.body (valuesOf r) (valuesOf r') := by
  constructor
  · intro hd
    obtain ⟨hu, hp⟩ := kind_of_decision h hd
    exact (decision_eq_iff_of_kind h hu hp).mp hd
  · intro hd
    exact (decision_eq_iff_of_kind h hd.upgrade hd.preflight).mpr hd

end

/-! ## Two spellings -/

namespace RequestText

variable (a : RequestText)

def body : Bytes := a.rest.take (requestSize a.headers - (a.headers.length + 4))

/-- The request is cut off whole and has a known method: `HandleRead` is called. -/
structure Handled (m : HttpMethod) : Prop where
  sized : ¬ BlankLength a.headers
  complete : requestSize a.headers ≤ a.text.length
  whole : a.headers.length + 4 ≤ requestSize a.headers
  known : getEnumForString (methodWord a.headers) = .ok m

end RequestText

/-- The scans for a length meet a blank in both, or the same number, or a
number no complete request goes with. -/
def SameLength (a b : RequestText) : Prop :=
  (BlankLength a.headers ↔ BlankLength b.headers) ∧
    (¬ BlankLength a.headers → announced a.headers = announced b.headers ∨
      a.text.length < requestSize a.headers ∧ b.text.length < requestSize b.headers)

structure SpelledAlike (S : ZvejysServer) (jwtSecret : Option Bytes) (now : Int) (X : Externals) (a b : RequestText) :
    Prop where
  length : SameLength a b
  fields : ∀ m, a.Handled m → DecideAlike S jwtSecret now X m a.body a.valueOf b.valueOf

section
variable {S : ZvejysServer} {jwtSecret : Option Bytes} {now : Int} {X : Externals} {a b : RequestText}

theorem SpelledAlike.refl : SpelledAlike S jwtSecret now X a a :=
  ⟨⟨Iff.rfl, fun _ => .inl rfl⟩, fun _ _ => decideAlike_of_consulted _ _ _ _ _ _ fun _ _ => rfl⟩

theorem treatment_text (a : RequestText) :
    S.treatment jwtSecret now X a.text =
      if BlankLength a.headers then .error .outOfRange
      else if a.text.length < requestSize a.headers then .ok none
      else .ok (some (requestSize a.headers,
        (parse X (a.text.take (requestSize a.headers))).map (S.decision jwtSecret now))) := by
  unfold ZvejysServer.treatment
  rw [cutRequest_eq a.find_text, a.take_text]
  by_cases hb : BlankLength a.headers
  · rw [if_pos hb, if_pos hb]
  · rw [if_neg hb, if_neg hb]
    by_cases hs : a.text.length < requestSize a.headers
    · rw [if_pos hs, if_pos hs]
    · rw [if_neg hs, if_neg hs]
      simp only [List.length_take, Nat.min_eq_left (Nat.le_of_not_lt hs)]

theorem requestSize_eq_iff (h : SameButNames a b) :
    requestSize a.headers = requestSize b.headers ↔ announced a.headers = announced b.headers := by
  have ha := announced_lt a.headers
  have hb := announced_lt b.headers
  unfold requestSize
  rw [h.headers_length]
  constructor
  · intro he
    unfold sizeMod at ha hb he
    omega
  · intro he
    rw [he]

theorem methodWord_same (h : SameButNames a b) : methodWord a.headers = methodWord b.headers := by
  rw [methodWord, methodWord, a.requestLine_headers, b.requestLine_headers, h.1]

theorem readRequest_same (h : SameButNames a b) (hne : a.fields ≠ []) (body : Bytes) {m : HttpMethod}
    (hm : getEnumForString (methodWord a.headers) = .ok m) :
    ∃ r r', readRequest X a.headers body = .ok r ∧ readRequest X b.headers body = .ok r' ∧ SameButHeaders X r r' ∧
      r.method = m ∧ r.body = body ∧ valuesOf r = a.valueOf ∧ valuesOf r' = b.valueOf := by
  have hne' : b.fields ≠ [] := by
    intro hb
    have hlen := h.2.2.length_eq
    rw [hb] at hlen
    exact hne (List.eq_nil_of_length_eq_zero hlen)
  have hline : requestLine b.headers = requestLine a.headers := by
    rw [a.requestLine_headers, b.requestLine_headers, h.1]
  unfold readRequest
  rw [← methodWord_same h, hm, hline]
  exact ⟨_, _, rfl, rfl, ⟨rfl, rfl, rfl⟩, rfl, rfl, funext (a.lookup_fields hne), funext (b.lookup_fields hne')⟩

theorem parsed_same_iff (h : SameButNames a b) (hne : a.fields ≠ []) (hb : ¬ BlankLength a.headers)
    (hs : requestSize a.headers ≤ a.text.length) (hn : requestSize a.headers = requestSize b.headers) :
    (parse X (a.text.take (requestSize a.headers))).map (S.decision jwtSecret now) =
        (parse X (b.text.take (requestSize a.headers))).map (S.decision jwtSecret now) ↔
      ∀ m, a.Handled m → DecideAlike S jwtSecret now X m a.body a.valueOf b.valueOf := by
  have hlen := h.headers_length
  rcases Nat.lt_or_ge (requestSize a.headers) (a.headers.length + 4) with hshort | hle
  · rw [parse_take_short a.find_text hshort, parse_take_short b.find_text (hlen ▸ hshort)]
    refine iff_of_true rfl fun m hm => absurd hm.whole (by omega)
  · rw [parse_take a.find_text hle, parse_take b.find_text (hlen ▸ hle), a.take_text, b.take_text, a.drop_text,
      b.drop_text, ← hlen, ← h.2.1]
    cases hm : getEnumForString (methodWord a.headers) with
    | error e =>
      have hu : ¬ KnownMethod a.headers := fun ⟨m, hm'⟩ => by
        rw [hm] at hm'
        cases hm'
      have hu' : ¬ KnownMethod b.headers := by
        unfold KnownMethod at hu ⊢
        rwa [← methodWord_same h]
      rw [readRequest_of_unknown X _ hu, readRequest_of_unknown X _ hu']
      refine iff_of_true rfl fun m hmh => ?_
      have := hmh.known
      rw [hm] at this
      cases this
    | ok m =>
      obtain ⟨r, r', hr, hr', hsame, hmr, hbody, hv, hv'⟩ := readRequest_same (X := X) h hne a.body hm
      change (Except.map _ (readRequest X a.headers a.body) = Except.map _ (readRequest X b.headers a.body)) ↔ _
      rw [hr, hr', Except.map, Except.map, Except.ok.injEq, decision_eq_iff hsame, hmr, hbody, hv, hv']
      constructor
      · intro hd m' hm'
        have hmm := hm.symm.trans hm'.known
        cases hmm
        exact hd
      · intro hd
        exact hd m ⟨hb, hs, hle, hm⟩

theorem sized_same_iff (h : SameButNames a b) (hne : a.fields ≠ []) (hb : ¬ BlankLength a.headers)
    (hb' : ¬ BlankLength b.headers) :
    S.treatment jwtSecret now X a.text = S.treatment jwtSecret now X b.text ↔
      (announced a.headers = announced b.headers ∨
          a.text.length < requestSize a.headers ∧ b.text.length < requestSize b.headers) ∧
        ∀ m, a.Handled m → DecideAlike S jwtSecret now X m a.body a.valueOf b.valueOf := by
  have hlen := h.text_length
  have hsize := requestSize_eq_iff h
  rw [treatment_text, treatment_text, if_neg hb, if_neg hb']
  by_cases hs : a.text.length < requestSize a.headers
  · rw [if_pos hs]
    by_cases hs' : b.text.length < requestSize b.headers
    · rw [if_pos hs']
      exact iff_of_true rfl ⟨.inr ⟨hs, hs'⟩, fun m hm => absurd hm.complete (by omega)⟩
    · rw [if_neg hs', ← hsize]
      refine iff_of_false (fun he => by cases he) fun ⟨hl, _⟩ => ?_
      omega
  · rw [if_neg hs]
    by_cases hs' : b.text.length < requestSize b.headers
    · rw [if_pos hs', ← hsize]
      refine iff_of_false (fun he => by cases he) fun ⟨hl, _⟩ => ?_
      omega
    · rw [if_neg hs', Except.ok.injEq, Option.some.injEq, Prod.mk.injEq, ← hsize]
      have hcut : (requestSize a.headers = requestSize b.headers ∨
          a.text.length < requestSize a.headers ∧ b.text.length < requestSize b.headers) ↔
            requestSize a.headers = requestSize b.headers := or_iff_left fun hn => hs hn.1
      rw [hcut]
      refine and_congr_right fun hn => ?_
      rw [← hn]
      exact parsed_same_iff h hne hb (Nat.le_of_not_lt hs) hn

/-- **Header names in another case.** Two requests that differ only in the
case of letters in field names are cut off and decided alike exactly when they
announce the same length and their fields of the consulted names decide alike. -/
theorem header_case_iff (h : SameButNames a b) :
    S.treatment jwtSecret now X a.text = S.treatment jwtSecret now X b.text ↔
      SpelledAlike S jwtSecret now X a b := by
  by_cases hne : a.fields = []
  · obtain ⟨first, fields, rest, _⟩ := a
    obtain ⟨first', fields', rest', _⟩ := b
    obtain ⟨rfl, rfl, hfields⟩ := h
    obtain rfl : fields = [] := hne
    obtain rfl : fields' = [] := List.forall₂_nil_left_iff.mp hfields
    exact iff_of_true rfl .refl
  · by_cases hb : BlankLength a.headers
    · rw [treatment_text, treatment_text, if_pos hb]
      by_cases hb' : BlankLength b.headers
      · rw [if_pos hb']
        exact iff_of_true rfl ⟨⟨iff_of_true hb hb', fun hn => absurd hb hn⟩, fun m hm => absurd hb hm.sized⟩
      · rw [if_neg hb']
        refine iff_of_false (fun he => ?_) fun hs => hb' (hs.length.1.mp hb)
        split at he <;> cases he
    · by_cases hb' : BlankLength b.headers
      · rw [treatment_text, treatment_text, if_neg hb, if_pos hb']
        refine iff_of_false (fun he => ?_) fun hs => hb (hs.length.1.mpr hb')
        split at he <;> cases he
      · rw [sized_same_iff h hne hb hb']
        constructor
        · intro ⟨hl, hd⟩
          exact ⟨⟨iff_of_false hb hb', fun _ => hl⟩, hd⟩
        · intro hs
          exact ⟨hs.length.2 hb, hs.fields⟩

end

/-! ### Lengths and upgrades in other spellings -/

def postHi (name : Bytes) (h : 58 ∉ name ∧ 13 ∉ name) : RequestText where
  first := bytes "POST / HTTP/1.1"
  fields := [⟨name, bytes " 2", h, by decide⟩]
  rest := bytes "hi"
  first_ok := by decide

def getSocket (name : Bytes) (h : 58 ∉ name ∧ 13 ∉ name) : RequestText where
  first := bytes "GET / HTTP/1.1"
  fields := [⟨name, bytes " websocket", h, by decide⟩, ⟨bytes "Connection", bytes " Upgrade", by decide, by decide⟩,
    ⟨bytes "Sec-WebSocket-Key", bytes " dGhl", by decide, by decide⟩]
  rest := []
  first_ok := by decide

theorem postHi_same {n n' : Bytes} (h : 58 ∉ n ∧ 13 ∉ n) (h' : 58 ∉ n' ∧ 13 ∉ n') (hn : lower n = lower n') :
    SameButNames (postHi n h) (postHi n' h') :=
  ⟨rfl, rfl, .cons ⟨hn, rfl⟩ .nil⟩

theorem getSocket_same {n n' : Bytes} (h : 58 ∉ n ∧ 13 ∉ n) (h' : 58 ∉ n' ∧ 13 ∉ n') (hn : lower n = lower n') :
    SameButNames (getSocket n h) (getSocket n' h') :=
  ⟨rfl, rfl, .cons ⟨hn, rfl⟩ (.cons ⟨rfl, rfl⟩ (.cons ⟨rfl, rfl⟩ .nil))⟩

theorem header_case_length :
    (ZvejysServer.new {} none).treatment none 0 ⟨fun _ => .error .other, .GET⟩
        (postHi (bytes "Content-Length") (by decide)).text =
      (ZvejysServer.new {} none).treatment none 0 ⟨fun _ => .error .other, .GET⟩
        (postHi (bytes "content-length") (by decide)).text := by
  refine (header_case_iff (postHi_same _ _ (by decide))).mpr ⟨⟨by decide, fun _ => .inl (by decide)⟩, fun m _ => ?_⟩
  exact decideAlike_of_consulted _ _ _ _ _ _ (by decide)

set_option maxRecDepth 8192 in
/-- In capitals the length is not found; in lower case neither is the upgrade. -/
theorem header_case_differs :
    (SameButNames (postHi (bytes "Content-Length") (by decide)) (postHi (bytes "CONTENT-LENGTH") (by decide)) ∧
      (ZvejysServer.new {} none).treatment none 0 ⟨fun _ => .error .other, .GET⟩
          (postHi (bytes "Content-Length") (by decide)).text ≠
        (ZvejysServer.new {} none).treatment none 0 ⟨fun _ => .error .other, .GET⟩
          (postHi (bytes "CONTENT-LENGTH") (by decide)).text) ∧
    (SameButNames (getSocket (bytes "Upgrade") (by decide)) (getSocket (bytes "upgrade") (by decide)) ∧
      (ZvejysServer.new {} none).treatment none 0 ⟨fun _ => .error .other, .GET⟩
          (getSocket (bytes "Upgrade") (by decide)).text ≠
        (ZvejysServer.new {} none).treatment none 0 ⟨fun _ => .error .other, .GET⟩
          (getSocket (bytes "upgrade") (by decide)).text) := by
  refine ⟨⟨postHi_same _ _ (by decide), fun h => ?_⟩, ⟨getSocket_same _ _ (by decide), fun h => ?_⟩⟩
  · have hname : lower (bytes "Content-Length") = lower (bytes "CONTENT-LENGTH") := by decide
    have hlength := postHi_same (by decide) (by decide) hname
    have hcut := ((sized_same_iff hlength (by decide) (by decide) (by decide)).mp h).1
    revert hcut
    decide
  · have hname : lower (bytes "Upgrade") = lower (bytes "upgrade") := by decide
    have hupgrade := getSocket_same (by decide) (by decide) hname
    have hd := ((sized_same_iff hupgrade (by decide) (by decide) (by decide)).mp h).2 .GET
      ⟨by decide, by decide, by decide, by decide⟩
    exact absurd hd.upgrade (by decide)

end Ryklys
