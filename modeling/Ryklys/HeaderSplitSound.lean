import Ryklys.HeaderCaseSound
import Ryklys.HttpConnection

/-!
# Which responses are split

A client that takes a lone CR or LF for the end of a line reads the header
block of a response, behind its status line, as lines up to the first empty
one. They are the headers of the map and the two that are always written, as
long as no name and no value breaks (`seenHeaders_eq`). The CORS layer writes
the `Origin` of the request back: a configured origin, or with `*` any text
that `Parse` leaves in a value, and `Parse` cuts lines at CRLF alone.
-/

namespace Ryklys

open Search

/-- No CR and no LF. -/
def Unbroken (text : Bytes) : Prop := 13 ∉ text ∧ 10 ∉ text

instance (text : Bytes) : Decidable (Unbroken text) := inferInstanceAs (Decidable (_ ∧ _))

def UnbrokenHeaders (headers : StrMap) : Prop := ∀ pair ∈ headers.entries, Unbroken pair.1 ∧ Unbroken pair.2

/-! ## What a client sees -/

def clientLines : Bytes → List Bytes
  | [] => [[]]
  | 13 :: 10 :: s => [] :: clientLines s
  | 13 :: s => [] :: clientLines s
  | 10 :: s => [] :: clientLines s
  | c :: s => (clientLines s).modifyHead (c :: ·)

/-- The lines up to the first empty one. -/
def clientHeader (text : Bytes) : List Bytes := (clientLines text).takeWhile fun line => decide (line ≠ [])

namespace HttpResponse

def statusLine (r : HttpResponse) : Bytes :=
  bytes "HTTP/1.1 " ++ Numeral.ofInt r.statusCode ++ bytes " " ++ r.statusText ++ crlf

/-- The headers of the map, and the two that are always written. -/
def ownHeaders (r : HttpResponse) : List Bytes :=
  r.headers.entries.map (fun pair => pair.1 ++ bytes ": " ++ pair.2) ++
    [bytes "Content-Length: " ++ Numeral.ofNat r.body.length, bytes "Connection: keep-alive"]

def seenHeaders (r : HttpResponse) : List Bytes := clientHeader ((serializeResponse r).drop r.statusLine.length)

structure NotSplit (r : HttpResponse) : Prop where
  unbroken : UnbrokenHeaders r.headers
  seen : r.seenHeaders = r.ownHeaders

end HttpResponse

theorem clientLines_cons {c : UInt8} (h13 : c ≠ 13) (h10 : c ≠ 10) (s : Bytes) :
    clientLines (c :: s) = (clientLines s).modifyHead (c :: ·) := by
  rw [clientLines]
  · intro _ hc _
    exact h13 hc
  · exact h13
  · exact h10

theorem clientLines_line {line : Bytes} (h : Unbroken line) (rest : Bytes) :
    clientLines (line ++ crlf ++ rest) = line :: clientLines rest := by
  induction line with
  | nil => rfl
  | cons c line ih =>
    obtain ⟨h13, h10⟩ := h
    rw [List.mem_cons, not_or] at h13 h10
    rw [List.cons_append, List.cons_append, clientLines_cons (Ne.symm h13.1) (Ne.symm h10.1), ih ⟨h13.2, h10.2⟩,
      List.modifyHead_cons]

theorem clientHeader_lines (lines : List Bytes) (rest : Bytes) (h : ∀ line ∈ lines, Unbroken line ∧ line ≠ []) :
    clientHeader (lines.flatMap (· ++ crlf) ++ crlf ++ rest) = lines := by
  induction lines with
  | nil => rfl
  | cons line lines ih =>
    obtain ⟨hu, hne⟩ := h line (List.mem_cons_self ..)
    have ih := ih fun l hl => h l (List.mem_cons_of_mem line hl)
    rw [clientHeader] at ih ⊢
    rw [List.flatMap_cons, List.append_assoc, List.append_assoc, clientLines_line hu,
      List.takeWhile_cons_of_pos (by simpa using hne), ← List.append_assoc, ih]

theorem Unbroken.append {a b : Bytes} (ha : Unbroken a) (hb : Unbroken b) : Unbroken (a ++ b) := by
  rw [Unbroken, List.mem_append, List.mem_append, not_or, not_or]
  exact ⟨⟨ha.1, hb.1⟩, ha.2, hb.2⟩

theorem unbroken_ofNat (n : Nat) : Unbroken (Numeral.ofNat n) :=
  ⟨fun h => absurd (Numeral.isDigit_ofNat n 13 h) (by decide), fun h => absurd (Numeral.isDigit_ofNat n 10 h) (by decide)⟩

theorem unbroken_ofInt (n : Int) : Unbroken (Numeral.ofInt n) := by
  cases n with
  | ofNat n => exact unbroken_ofNat n
  | negSucc n => exact Unbroken.append (a := [45]) (by decide) (unbroken_ofNat (n + 1))

namespace HttpResponse

theorem serializeResponse_eq (r : HttpResponse) :
    serializeResponse r = r.statusLine ++ (r.ownHeaders.flatMap (· ++ crlf) ++ crlf ++ r.body) := by
  have hkeep : bytes "Connection: keep-alive\r\n" = bytes "Connection: keep-alive" ++ crlf := by decide
  rw [serializeResponse, statusLine, ownHeaders, serializeHeaders, hkeep, List.flatMap_append, List.flatMap_map]
  simp only [List.flatMap_cons, List.flatMap_nil, List.append_nil, List.append_assoc]

/-- Where nothing breaks, the client sees the headers of the map. -/
theorem seenHeaders_eq {r : HttpResponse} (h : UnbrokenHeaders r.headers) : r.seenHeaders = r.ownHeaders := by
  rw [seenHeaders, serializeResponse_eq, List.drop_left]
  apply clientHeader_lines
  rw [ownHeaders, List.forall_mem_append]
  constructor
  · intro line hl
    obtain ⟨pair, hp, rfl⟩ := List.mem_map.mp hl
    refine ⟨((h pair hp).1.append (by decide)).append (h pair hp).2, ?_⟩
    simp [bytes]
  · intro line hl
    rw [List.mem_cons, List.mem_singleton] at hl
    rcases hl with rfl | rfl
    · exact ⟨Unbroken.append (by decide) (unbroken_ofNat _), by simp [bytes]⟩
    · exact ⟨by decide, by decide⟩

theorem notSplit_iff (r : HttpResponse) : r.NotSplit ↔ UnbrokenHeaders r.headers :=
  ⟨NotSplit.unbroken, fun h => ⟨h, seenHeaders_eq h⟩⟩

end HttpResponse

theorem UnbrokenHeaders.insert {headers : StrMap} {key value : Bytes} (h : UnbrokenHeaders headers)
    (hk : Unbroken key) (hv : Unbroken value) : UnbrokenHeaders (headers.insert key value) := by
  intro pair hp
  rw [AList.entries_insert, List.mem_cons] at hp
  rcases hp with rfl | hp
  · exact ⟨hk, hv⟩
  · exact h pair ((List.kerase_sublist key headers.entries).subset hp)

theorem UnbrokenHeaders.of_lookup {headers : StrMap} {key value : Bytes} (h : UnbrokenHeaders headers)
    (hl : headers.lookup key = some value) : Unbroken value :=
  (h ⟨key, value⟩ (AList.mem_lookup_iff.mp hl)).2

/-! ## A header that is set on a condition -/

theorem lookup_set {c : Prop} [Decidable c] {headers : StrMap} {key name value : Bytes} (h : name ≠ key) :
    (if c then headers.insert key value else headers).lookup name = headers.lookup name := by
  split
  · exact AList.lookup_insert_ne h
  · rfl

theorem UnbrokenHeaders.set {c : Prop} [Decidable c] {headers : StrMap} {key value : Bytes}
    (h : UnbrokenHeaders headers) (hk : Unbroken key) (hv : Unbroken value) :
    UnbrokenHeaders (if c then headers.insert key value else headers) := by
  split
  · exact h.insert hk hv
  · exact h

/-! ## The headers that CORS adds -/

/-- The strings of a configuration. -/
structure CorsConfig.Unbroken (config : CorsConfig) : Prop where
  origins : ∀ s ∈ config.allowedOrigins, Ryklys.Unbroken s
  methods : ∀ s ∈ config.allowedMethods, Ryklys.Unbroken s
  headers : ∀ s ∈ config.allowedHeaders, Ryklys.Unbroken s

theorem unbroken_joinSet {set : List Bytes} (h : ∀ s ∈ set, Unbroken s) : Unbroken (joinSet set) := by
  have hfold : ∀ result, Unbroken result → Unbroken
      (set.foldl (fun result item => (if result ≠ [] then result ++ bytes ", " else result) ++ item) result) := by
    induction set with
    | nil => exact fun result hr => hr
    | cons item set ih =>
      intro result hr
      rw [List.foldl_cons]
      apply ih (fun s hs => h s (List.mem_cons_of_mem item hs))
      apply Unbroken.append _ (h item (List.mem_cons_self ..))
      split
      · exact hr.append (by decide)
      · exact hr
  exact hfold [] (by decide)

namespace Cors

variable {C : Cors} {config : CorsConfig} {request : HttpRequest} {origin : Bytes}

theorem originKey_ne : originKey ≠ methodsKey ∧ originKey ≠ headersKey ∧ originKey ≠ credentialsKey ∧
    originKey ≠ maxAgeKey := by
  decide

theorem unbroken_keys : Unbroken originKey ∧ Unbroken methodsKey ∧ Unbroken headersKey ∧ Unbroken credentialsKey ∧
    Unbroken maxAgeKey := by
  decide

theorem handlePreflight_none (h : C.allowedOrigin request = none) : C.handlePreflight request = none := by
  rw [handlePreflight, allowedOrigin_eq_none.mp h]

/-- Both answers carry the origin they were opened to. -/
theorem applyCorsHeaders_origin (h : C.allowedOrigin request = some origin) (res : HttpResponse) :
    (C.applyCorsHeaders request res).2.headers.lookup originKey = some origin := by
  obtain ⟨hv, hl⟩ := allowedOrigin_some h
  obtain ⟨hm, hh, hc, ha⟩ := originKey_ne
  rw [applyCorsHeaders, hv, hl]
  simp only
  rw [lookup_set ha, lookup_set hc, lookup_set hh, lookup_set hm, AList.lookup_insert]

theorem handlePreflight_origin (h : C.allowedOrigin request = some origin) :
    ∃ res, C.handlePreflight request = some res ∧ res.headers.lookup originKey = some origin := by
  obtain ⟨hv, hl⟩ := allowedOrigin_some h
  obtain ⟨hm, hh, hc, ha⟩ := originKey_ne
  rw [handlePreflight, hv, hl]
  refine ⟨_, rfl, ?_⟩
  simp only
  rw [AList.lookup_insert_ne ha, AList.lookup_insert_ne hc, AList.lookup_insert_ne hh, AList.lookup_insert_ne hm,
    AList.lookup_insert]

theorem unbroken_applyCorsHeaders (hc : config.Unbroken)
    (ho : ∀ origin, (ofConfig config).allowedOrigin request = some origin → Unbroken origin) {res : HttpResponse}
    (hr : UnbrokenHeaders res.headers) : UnbrokenHeaders ((ofConfig config).applyCorsHeaders request res).2.headers := by
  cases h : (ofConfig config).allowedOrigin request with
  | none => rwa [applyCorsHeaders_none h]
  | some origin =>
    obtain ⟨hv, hl⟩ := allowedOrigin_some h
    obtain ⟨k1, k2, k3, k4, k5⟩ := unbroken_keys
    rw [applyCorsHeaders, hv, hl]
    apply UnbrokenHeaders.set _ k5 (unbroken_ofInt _)
    apply UnbrokenHeaders.set _ k4 (by decide)
    apply UnbrokenHeaders.set _ k3 (unbroken_joinSet hc.headers)
    apply UnbrokenHeaders.set _ k2 (unbroken_joinSet hc.methods)
    exact hr.insert k1 (ho origin h)

theorem unbroken_handlePreflight (hc : config.Unbroken)
    (ho : ∀ origin, (ofConfig config).allowedOrigin request = some origin → Unbroken origin) {res : HttpResponse}
    (hr : (ofConfig config).handlePreflight request = some res) : UnbrokenHeaders res.headers := by
  cases h : (ofConfig config).allowedOrigin request with
  | none =>
    rw [handlePreflight_none h] at hr
    cases hr
  | some origin =>
    obtain ⟨hv, hl⟩ := allowedOrigin_some h
    rw [handlePreflight, hv, hl] at hr
    cases hr
    have h0 : UnbrokenHeaders HttpResponse.noContent.headers := by
      intro pair hp
      cases hp
    have htrue : Unbroken (if config.allowCredentials then bytes "true" else bytes "false") := by
      split
      · decide
      · decide
    obtain ⟨k1, k2, k3, k4, k5⟩ := unbroken_keys
    apply UnbrokenHeaders.insert _ k5 (unbroken_ofInt _)
    apply UnbrokenHeaders.insert _ k4 htrue
    apply UnbrokenHeaders.insert _ k3 (unbroken_joinSet hc.headers)
    apply UnbrokenHeaders.insert _ k2 (unbroken_joinSet hc.methods)
    exact h0.insert k1 (ho origin h)

theorem allowed_unbroken_iff (hc : config.Unbroken) :
    (∀ origin, (ofConfig config).allowedOrigin request = some origin → Unbroken origin) ↔
      ¬ (bytes "*" ∈ config.allowedOrigins ∧
        ∃ origin, request.headers.lookup (bytes "Origin") = some origin ∧ ¬ Unbroken origin) := by
  constructor
  · rintro h ⟨hstar, origin, hl, hn⟩
    exact hn (h origin (allowedOrigin_eq_some.mpr ⟨.inl hstar, hl⟩))
  · intro h origin ho
    obtain ⟨hallow, hl⟩ := allowedOrigin_eq_some.mp ho
    rcases hallow with hstar | hmem
    · by_contra hn
      exact h ⟨hstar, origin, hl, hn⟩
    · exact hc.origins origin hmem

end Cors

/-! ## The answers -/

namespace ZvejysServer

variable {S : ZvejysServer} {config : CorsConfig} {request : HttpRequest} {ran : Option Nat} {response : HttpResponse}

/-- What `dispatch` hands on: the response of the handler, or the one that
stands for its exception. -/
theorem unbroken_dispatched (h : ∀ r, (S.dispatch request).2 = .ok r → UnbrokenHeaders r.headers) :
    UnbrokenHeaders (match (S.dispatch request).2 with
      | .ok response => response
      | .error _ => .internalServerError (bytes "Internal server error")).headers := by
  cases hd : (S.dispatch request).2 with
  | ok r => exact h r hd
  | error _ =>
    intro pair hp
    cases hp

theorem queued_unbroken_iff (hc : config.Unbroken) (hS : S.cors = Cors.ofConfig config)
    (ha : S.handleRead request = .queued ran response)
    (hd : isCorsPreflight request = false → ∀ r, (S.dispatch request).2 = .ok r → UnbrokenHeaders r.headers) :
    UnbrokenHeaders response.headers ↔ ∀ origin, S.cors.allowedOrigin request = some origin → Unbroken origin := by
  unfold handleRead at ha
  split at ha
  · cases ha
  split at ha
  · cases ha
    constructor
    · intro h origin ho
      obtain ⟨res, hr, hl⟩ := Cors.handlePreflight_origin ho
      rw [hr] at h
      exact h.of_lookup hl
    · intro ho
      cases hr : S.cors.handlePreflight request with
      | none =>
        intro pair hp
        cases hp
      | some res =>
        rw [hS] at hr ho
        exact Cors.unbroken_handlePreflight hc ho hr
  · rename_i hp
    cases ha
    constructor
    · intro h origin ho
      exact h.of_lookup (Cors.applyCorsHeaders_origin ho _)
    · intro ho
      rw [hS] at ho ⊢
      exact Cors.unbroken_applyCorsHeaders hc ho (unbroken_dispatched (hd (by simpa using hp)))

end ZvejysServer

/-! ## The request text -/

/-- The last header line of the request that is named `Origin` has a CR or an
LF in its value. -/
def BrokenOrigin (buffer : Bytes) : Prop :=
  ∃ headerEnd, find crlfcrlf buffer = some headerEnd ∧
    ∃ origin, lastValue (bytes "Origin") (fieldLines (buffer.take headerEnd)) = some origin ∧ ¬ Unbroken origin

theorem brokenOrigin_iff {X : Externals} {buffer : Bytes} {request : HttpRequest} (h : parse X buffer = .ok request) :
    BrokenOrigin buffer ↔ ∃ origin, request.headers.lookup (bytes "Origin") = some origin ∧ ¬ Unbroken origin := by
  unfold parse at h
  split at h
  · rename_i hnil
    cases h
    constructor
    · rintro ⟨headerEnd, hf, -⟩
      rw [hnil] at hf
      cases hf
    · rintro ⟨origin, hl, -⟩
      cases hl
  · split at h
    · cases h
    · rename_i headerEnd hf
      have hh := (readRequest_ok h).2.1
      rw [hh, BrokenOrigin]
      simp only [hf, Option.some.injEq, exists_eq_left', lookup_headers]

/-- **Which responses are split**: those to a request whose `Origin` has a CR
or an LF in it, under a configuration that allows every origin. -/
theorem response_not_split_iff (X : Externals) {S : ZvejysServer} {config : CorsConfig} {buffer : Bytes}
    {request : HttpRequest} {ran : Option Nat} {response : HttpResponse} (hc : config.Unbroken)
    (hS : S.cors = Cors.ofConfig config) (hp : parse X buffer = .ok request)
    (ha : S.handleRead request = .queued ran response)
    (hd : isCorsPreflight request = false → ∀ r, (S.dispatch request).2 = .ok r → UnbrokenHeaders r.headers) :
    response.NotSplit ↔ ¬ (bytes "*" ∈ config.allowedOrigins ∧ BrokenOrigin buffer) := by
  rw [response.notSplit_iff, ZvejysServer.queued_unbroken_iff hc hS ha hd, brokenOrigin_iff hp, hS,
    Cors.allowed_unbroken_iff hc]

/-- A server without routes that allows every origin. -/
def openServer : ZvejysServer := .new { allowedOrigins := [bytes "*"] } none

def openRequest (origin : Bytes) : HttpRequest :=
  { method := .GET, path := bytes "/", version := bytes "HTTP/1.1",
    headers := (∅ : StrMap).insert (bytes "Origin") origin }

def openResponse (origin : Bytes) : HttpResponse :=
  (openServer.cors.applyCorsHeaders (openRequest origin) (.notFound (bytes "Route not found"))).2

theorem openServer_handleRead (origin : Bytes) :
    openServer.handleRead (openRequest origin) = .queued none (openResponse origin) := rfl

theorem openServer_dispatched {origin : Bytes} {r : HttpResponse}
    (h : (openServer.dispatch (openRequest origin)).2 = .ok r) : UnbrokenHeaders r.headers := by
  cases h
  intro pair hp
  cases hp

theorem openServer_config : CorsConfig.Unbroken { allowedOrigins := [bytes "*"] } :=
  ⟨by decide, by decide, by decide⟩

theorem response_not_split_get : (openResponse (bytes "a")).NotSplit ↔
    ¬ (bytes "*" ∈ [bytes "*"] ∧ BrokenOrigin (bytes "GET / HTTP/1.1\r\nOrigin: a\r\n\r\n")) :=
  response_not_split_iff ⟨fun _ => .error .other, .GET⟩ openServer_config rfl rfl (openServer_handleRead _)
    fun _ _ => openServer_dispatched

/-- A line of the request is a header of the response. -/
theorem response_split :
    CorsConfig.Unbroken { allowedOrigins := [bytes "*"] } ∧
    openServer.cors = Cors.ofConfig { allowedOrigins := [bytes "*"] } ∧
    parse ⟨fun _ => .error .other, .GET⟩ (bytes "GET / HTTP/1.1\r\nOrigin: a\nX: b\r\n\r\n") =
      .ok (openRequest (bytes "a\nX: b")) ∧
    openServer.handleRead (openRequest (bytes "a\nX: b")) = .queued none (openResponse (bytes "a\nX: b")) ∧
    (∀ r, (openServer.dispatch (openRequest (bytes "a\nX: b"))).2 = .ok r → UnbrokenHeaders r.headers) ∧
    (openResponse (bytes "a\nX: b")).seenHeaders =
      [bytes "Access-Control-Allow-Origin: a", bytes "X: b", bytes "Content-Length: 15",
        bytes "Connection: keep-alive"] ∧
    ¬ (openResponse (bytes "a\nX: b")).NotSplit := by
  have hseen : (openResponse (bytes "a\nX: b")).seenHeaders = [bytes "Access-Control-Allow-Origin: a", bytes "X: b",
      bytes "Content-Length: 15", bytes "Connection: keep-alive"] := by decide
  refine ⟨openServer_config, rfl, rfl, rfl, fun _ => openServer_dispatched, hseen, fun h => ?_⟩
  have hown := h.seen
  rw [hseen] at hown
  exact absurd (congrArg List.length hown) (by decide)

end Ryklys
