import Ryklys.HttpConnection
import Ryklys.Runs
import Ryklys.ScanSound

/-!
# Framing of requests

What `OnReadable` cuts off the buffer, in terms of the text of the header
section (`cutRequest_eq`), and what follows: which buffers make a call throw,
answer without consuming or answer what is malformed as if it were not
(`calls_fine_iff`), and when a call cuts whole requests (`cutsWhole_iff`).
-/

namespace Ryklys

open Search

/-! ## The announced length -/

def isBlank (c : UInt8) : Bool := c == 32 || c == 9

def afterName (headerSection : Bytes) : Option Bytes := (clPos headerSection).map fun p => headerSection.drop (p + 15)

/-- The name is spelled and nothing but blanks follows it. -/
def BlankLength (headerSection : Bytes) : Prop :=
  ∃ text ∈ afterName headerSection, ∀ c ∈ text, isBlank c = true

instance (H : Bytes) : Decidable (BlankLength H) :=
  have (text : Bytes) : Decidable (∀ c ∈ text, isBlank c = true) := List.decidableBAll _ text
  inferInstanceAs (Decidable (∃ text ∈ afterName H, ∀ c ∈ text, isBlank c = true))

/-- The number after the first spelling of the name, 0 when none is there. -/
def announced (headerSection : Bytes) : Nat :=
  match afterName headerSection with
  | some text => fromChars (text.dropWhile isBlank) 0
  | none => 0

theorem announced_lt (H : Bytes) : announced H < sizeMod := by
  unfold announced
  split
  · exact fromChars_lt (by decide)
  · decide

theorem takeWhile_take_of_stop {α : Type} {p : α → Bool} : ∀ {l : List α} {n : Nat} {a : α},
    l[n]? = some a → p a = false → (l.take n).takeWhile p = l.takeWhile p
  | [], _, _, h, _ => by simp at h
  | b :: l, 0, a, h, hp => by
    simp only [List.getElem?_cons_zero, Option.some.injEq] at h
    simp [h, hp]
  | b :: l, n + 1, a, h, hp => by
    rw [List.getElem?_cons_succ] at h
    rw [List.take_succ_cons, List.takeWhile_cons, List.takeWhile_cons, takeWhile_take_of_stop h hp]

/-- Digits never run past a CRLF, so cutting the value there changes nothing. -/
theorem fromChars_cut (s : Bytes) (old : Nat) :
    fromChars (match find crlf s with | some e => s.take e | none => s) old = fromChars s old := by
  cases h : find crlf s with
  | none => rfl
  | some e =>
    have hp := (find_spec h).1
    have hg : s[e]? = some 13 := by
      obtain ⟨t, ht⟩ := hp
      have := congrArg List.head? ht
      rw [List.head?_drop] at this
      exact this.symm
    unfold fromChars Numeral.readNat
    simp only [takeWhile_take_of_stop hg (show Numeral.isDigit 13 = false by decide)]

theorem mem_blanks (c : UInt8) : c ∈ bytes " \t" ↔ isBlank c = true := by
  have : bytes " \t" = [32, 9] := rfl
  simp [this, isBlank]

theorem contentLength_eq (H : Bytes) :
    contentLength H = if BlankLength H then .error .outOfRange else .ok (announced H) := by
  unfold contentLength
  cases hp : clPos H with
  | none =>
    have hb : ¬ BlankLength H := by
      intro ⟨text, ht, _⟩
      simp [afterName, hp] at ht
    simp [hb, announced, afterName, hp]
  | some p =>
    have ha : afterName H = some (H.drop (p + 15)) := by simp [afterName, hp]
    cases hv : findFirstNotOf (bytes " \t") H (p + 15) with
    | none =>
      have hb : BlankLength H := ⟨_, ha, fun c hc => (mem_blanks c).mp (findFirstNotOf_none.mp hv c hc)⟩
      simp [hv, hb]
    | some valStart =>
      have hb : ¬ BlankLength H := by
        intro ⟨text, ht, hall⟩
        rw [ha, Option.mem_some] at ht
        subst ht
        have := findFirstNotOf_none.mpr fun c hc => (mem_blanks c).mpr (hall c hc)
        rw [hv] at this
        cases this
      have hd : H.drop valStart = (H.drop (p + 15)).dropWhile isBlank := by
        rw [drop_findFirstNotOf hv]
        congr 1
        funext c
        rw [Bool.eq_iff_iff, decide_eq_true_eq, mem_blanks]
      simp only [hv, if_neg hb, announced, ha]
      congr 1
      rw [← fromChars_cut ((H.drop (p + 15)).dropWhile isBlank), ← hd]
      unfold findFrom
      cases find crlf (H.drop valStart) with
      | none => rfl
      | some e => simp

/-! ## The cut -/

/-- How many bytes the framing takes for a request whose header section ends at
`headerEnd`, in `size_t` arithmetic. -/
def requestSize (headerSection : Bytes) : Nat := (headerSection.length + 4 + announced headerSection) % sizeMod

theorem cutRequest_none {buf : Bytes} (h : find crlfcrlf buf = none) : cutRequest buf = .ok none := by
  rw [cutRequest, h]

theorem cutRequest_eq {buf : Bytes} {headerEnd : Nat} (h : find crlfcrlf buf = some headerEnd) :
    cutRequest buf =
      if BlankLength (buf.take headerEnd) then .error .outOfRange
      else if buf.length < requestSize (buf.take headerEnd) then .ok none
      else .ok (some (buf.take (requestSize (buf.take headerEnd)), buf.drop (requestSize (buf.take headerEnd)))) := by
  have hlen := length_take_find h
  rw [cutRequest, h]
  simp only [contentLength_eq, requestSize, hlen]
  by_cases hb : BlankLength (buf.take headerEnd)
  · simp [hb]
  · simp [hb]

theorem parse_take {X : Externals} {buf : Bytes} {headerEnd n : Nat} (h : find crlfcrlf buf = some headerEnd)
    (hn : headerEnd + 4 ≤ n) :
    parse X (buf.take n) =
      readRequest X (buf.take headerEnd) ((buf.drop (headerEnd + 4)).take (n - (headerEnd + 4))) := by
  rw [parse_of_find X (find_take h (by rw [crlfcrlf_length]; exact hn)), List.take_take, List.drop_take,
    Nat.min_eq_left (by omega)]

theorem parse_take_short {X : Externals} {buf : Bytes} {headerEnd n : Nat} (h : find crlfcrlf buf = some headerEnd)
    (hn : n < headerEnd + 4) :
    parse X (buf.take n) = if n = 0 then .ok { method := X.indeterminate } else .error .runtimeError := by
  have hl := find_add_le h
  rw [crlfcrlf_length] at hl
  by_cases h0 : n = 0
  · subst h0; simp [parse]
  · have hne : buf.take n ≠ [] := by
      intro he
      have := congrArg List.length he
      rw [List.length_take, List.length_nil] at this
      omega
    rw [parse, if_neg hne, find_take_lt h (by rw [crlfcrlf_length]; exact hn), if_neg h0]

/-! ## Malformed requests -/

/-- The number a header value spells, blanks around it apart. -/
def decimalValue (value : Bytes) : Option Nat :=
  let digits := ((value.dropWhile isBlank).reverse.dropWhile isBlank).reverse
  if digits ≠ [] ∧ digits.all Numeral.isDigit then some (Numeral.value digits) else none

def versionOk (version : Bytes) : Bool :=
  (bytes "HTTP/").isPrefixOf version &&
    match version.drop 5 with
    | [major, 46, minor] => Numeral.isDigit major && Numeral.isDigit minor
    | _ => false

/-- `METHOD target HTTP/d.d`, with a method there is. -/
def requestLineOk (line : Bytes) : Bool :=
  match line.splitOn 32 with
  | [method, target, version] =>
    (getEnumForString method).toBool && !target.isEmpty && target.all (!isSpace ·) && versionOk version
  | _ => false

def nameOf (line : Bytes) : Bytes := line.takeWhile fun c => decide (c ≠ 58)

/-- `name:value`. -/
def fieldOk (line : Bytes) : Bool := decide (58 ∈ line) && !(nameOf line).isEmpty && (nameOf line).all (!isSpace ·)

def lowerByte (c : UInt8) : UInt8 := if isUpper c then c + 32 else c

def lower (s : Bytes) : Bytes := s.map lowerByte

/-- What the lines of a length say, whatever the case of the name. -/
def lengthNumbers (lines : List Bytes) : List (Option Nat) :=
  (lines.filter fun line => decide (lower (nameOf line) = bytes "content-length")).map fun line =>
    decimalValue (line.drop 15)

/-- A request line, fields, and lengths that are one and the same number. -/
structure WellFormedHeader (headerSection : Bytes) : Prop where
  requestLine : requestLineOk ((crlfLines headerSection).headD []) = true
  fields : ∀ line ∈ (crlfLines headerSection).tail, fieldOk line = true
  lengths : ∀ n ∈ lengthNumbers (crlfLines headerSection).tail,
    n ≠ none ∧ ∀ m ∈ lengthNumbers (crlfLines headerSection).tail, m = n

instance (H : Bytes) : Decidable (WellFormedHeader H) :=
  decidable_of_iff (requestLineOk ((crlfLines H).headD []) = true ∧ (∀ line ∈ (crlfLines H).tail, fieldOk line = true) ∧
    ∀ n ∈ lengthNumbers (crlfLines H).tail, n ≠ none ∧ ∀ m ∈ lengthNumbers (crlfLines H).tail, m = n)
    ⟨fun h => ⟨h.1, h.2.1, h.2.2⟩, fun h => ⟨h.requestLine, h.fields, h.lengths⟩⟩

example : WellFormedHeader (bytes "POST /a?b=c HTTP/1.1\r\nHost: x\r\ncontent-length: 3") := by decide
example : ¬ WellFormedHeader (bytes "GET / HTTP/1.1\r\nContent-Length: abc") := by decide
example : ¬ WellFormedHeader (bytes "GET HTTP/1.1\r\nHost: x") := by decide

/-- A header block is there, and it is none of a request. -/
def Malformed (buf : Bytes) : Prop :=
  ∃ headerEnd, find crlfcrlf buf = some headerEnd ∧ ¬ WellFormedHeader (buf.take headerEnd)

namespace ZvejysServer

variable (S : ZvejysServer)

/-- No upgrade and no allowed preflight; no route is for the request, or that
route's handler throws or answers with an error itself. -/
def Refuses (request : HttpRequest) : Prop :=
  isWsUpgrade request = false ∧
    if isCorsPreflight request then S.cors.handlePreflight request = none
    else ∀ node r response, S.called request = some (node, r) → node.handleRequest S.authFunc r = .ok response →
      response.IsError

variable {S}

theorem patternLoop_of_none {request : HttpRequest} : ∀ {routes : List (Bytes × PathTreeNode)},
    patternNode request routes = none → S.patternLoop request routes = (none, .ok (.notFound (bytes "Route not found")))
  | [], _ => rfl
  | (pattern, node) :: routes, h => by
    rw [patternNode] at h
    rw [patternLoop]
    split at h
    · cases h
    · rename_i hm
      rw [if_neg hm]
      exact patternLoop_of_none h

theorem isError_internal : (HttpResponse.internalServerError (bytes "Internal server error")).IsError :=
  show (400 : Int) ≤ 500 by decide

theorem isError_applyCors (C : Cors) (request : HttpRequest) (response : HttpResponse) :
    (C.applyCorsHeaders request response).2.IsError ↔ response.IsError := by
  rw [HttpResponse.IsError, Cors.applyCorsHeaders_statusCode, HttpResponse.IsError]

/-- A request is refused when it is answered with an error. -/
theorem refuses_iff {request : HttpRequest} :
    S.Refuses request ↔ ∃ ran response, S.handleRead request = .queued ran response ∧ response.IsError := by
  unfold Refuses
  by_cases hu : isWsUpgrade request = true
  · rw [handleRead, if_pos hu, hu]
    refine ⟨fun h => absurd h.1 (by decide), ?_⟩
    rintro ⟨ran, response, h, -⟩
    cases h
  have huf : isWsUpgrade request = false := Bool.eq_false_iff.mpr hu
  rw [and_iff_right huf]
  by_cases hp : isCorsPreflight request = true
  · rw [if_pos hp, handleRead, if_neg hu, if_pos hp]
    cases hc : S.cors.handlePreflight request with
    | none => exact ⟨fun _ => ⟨_, _, rfl, show (400 : Int) ≤ 403 by decide⟩, fun _ => rfl⟩
    | some response =>
      refine ⟨fun h => (by cases h), ?_⟩
      rintro ⟨ran, response', h, herr⟩
      cases h
      -- what CORS allows is answered with 204
      unfold Cors.handlePreflight at hc
      split at hc
      · cases hc
        exact absurd (show (400 : Int) ≤ 204 from herr) (by decide)
      · cases hc
  rw [if_neg hp]
  cases hcalled : S.called request with
  | none =>
    refine ⟨fun _ => ?_, fun _ _ _ _ h => by cases h⟩
    rw [called, huf, Bool.eq_false_iff.mpr hp] at hcalled
    simp only [Bool.or_self, Bool.false_eq_true, if_false] at hcalled
    have hd : S.dispatch request = (none, .ok (.notFound (bytes "Route not found"))) := by
      unfold dispatch
      split at hcalled
      · cases hcalled
      · exact patternLoop_of_none hcalled
    rw [handleRead, if_neg hu, if_neg hp, hd]
    exact ⟨_, _, rfl, (isError_applyCors ..).mpr (show (400 : Int) ≤ 404 by decide)⟩
  | some called =>
    obtain ⟨node, r⟩ := called
    rw [handleRead_of_called S hcalled]
    cases hr : node.handleRequest S.authFunc r with
    | error e =>
      refine ⟨fun _ => ⟨_, _, rfl, (isError_applyCors ..).mpr isError_internal⟩, ?_⟩
      rintro - node' r' response h he
      cases h
      cases hr.symm.trans he
    | ok response =>
      constructor
      · intro h
        exact ⟨_, _, rfl, (isError_applyCors ..).mpr (h node r response rfl hr)⟩
      · rintro ⟨ran, answered, h, herr⟩ node' r' response' hn he
        cases hn
        cases hr.symm.trans he
        cases h
        exact (isError_applyCors ..).mp herr

end ZvejysServer

/-! ## Calls on arbitrary bytes -/

def Waited (c c' : HttpConnection) (received : Bytes) : Prop :=
  c' = { c with readBuffer := c.readBuffer ++ received }

/-- The call answered one request, once, and consumed bytes for it. -/
def AnsweredOnce (c c' : HttpConnection) (received : Bytes) : Prop :=
  (∃ used, used ≠ [] ∧ c.readBuffer ++ received = used ++ c'.readBuffer) ∧
  (∃ request, c'.handled = c.handled ++ [request]) ∧
  ((∃ response, c'.responseQueue = c.responseQueue ++ [response] ∧ c'.upgrades = c.upgrades ∧
      (Malformed (c.readBuffer ++ received) → response.IsError)) ∨
    (¬ Malformed (c.readBuffer ++ received) ∧ c'.responseQueue = c.responseQueue ∧
      ∃ upgrade, c'.upgrades = c.upgrades ++ [upgrade]))

/-- A call on bytes from the network: no exception leaves it, and it waits or
answers once. -/
def CallFine (c : HttpConnection) (received : Bytes) (result : HttpConnection × Option Exn) : Prop :=
  result.2 = none ∧ (Waited c result.1 received ∨ AnsweredOnce c result.1 received)

/-- What `OnReadable` can deal with: if a header block is complete, its length
value is not blank, and either the request is not complete yet or the size sum
did not wrap below the header block, the method is known, and the header block is
well formed or the server has a refusal for the request read off it. -/
def Readable (X : Externals) (S : ZvejysServer) (buf : Bytes) : Prop :=
  ∀ headerEnd, find crlfcrlf buf = some headerEnd →
    ¬ BlankLength (buf.take headerEnd) ∧
      (buf.length < requestSize (buf.take headerEnd) ∨
        headerEnd + 4 ≤ requestSize (buf.take headerEnd) ∧ KnownMethod (buf.take headerEnd) ∧
          (WellFormedHeader (buf.take headerEnd) ∨
            ∀ request, parse X (buf.take (requestSize (buf.take headerEnd))) = .ok request → S.Refuses request))

section
variable (X : Externals) (S : ZvejysServer) (c : HttpConnection)

theorem answeredOnce_handleRead {request : HttpRequest} {received used rest : Bytes} (hne : used ≠ [])
    (hcut : c.readBuffer ++ received = used ++ rest)
    (hrefused : Malformed (c.readBuffer ++ received) → S.Refuses request) :
    AnsweredOnce c ({ c with readBuffer := rest }.handleRead S request) received := by
  refine ⟨⟨used, hne, by rw [HttpConnection.handleRead_readBuffer]; exact hcut⟩,
    ⟨request, HttpConnection.handleRead_handled ..⟩, ?_⟩
  unfold HttpConnection.handleRead
  cases ha : S.handleRead request with
  | switching handshake r =>
    refine Or.inr ⟨fun hm => ?_, rfl, _, rfl⟩
    obtain ⟨ran, response, hq, -⟩ := ZvejysServer.refuses_iff.mp (hrefused hm)
    cases ha.symm.trans hq
  | queued ran response =>
    refine Or.inl ⟨response, rfl, rfl, fun hm => ?_⟩
    obtain ⟨ran', response', hq, herr⟩ := ZvejysServer.refuses_iff.mp (hrefused hm)
    cases ha.symm.trans hq
    exact herr

theorem refuses_of_answeredOnce {request : HttpRequest} {received rest : Bytes}
    (h : AnsweredOnce c ({ c with readBuffer := rest }.handleRead S request) received)
    (hm : Malformed (c.readBuffer ++ received)) : S.Refuses request := by
  obtain ⟨-, -, ⟨response, hq, -, herr⟩ | ⟨hwf, -⟩⟩ := h
  · unfold HttpConnection.handleRead at hq
    refine ZvejysServer.refuses_iff.mpr ?_
    cases ha : S.handleRead request with
    | switching handshake r =>
      rw [ha] at hq
      have hlen : c.responseQueue.length = (c.responseQueue ++ [response]).length := congrArg List.length hq
      rw [List.length_append, List.length_singleton] at hlen
      omega
    | queued ran response' =>
      rw [ha] at hq
      have he := List.append_cancel_left hq
      rw [List.cons.injEq] at he
      exact ⟨ran, response', rfl, he.1 ▸ herr hm⟩
  · exact absurd hm hwf

theorem onReadable_eagain (chunks : List Bytes) :
    c.onReadable X S ⟨chunks, .eagain⟩ =
      match cutRequest (c.readBuffer ++ chunks.flatten) with
      | .error e => ({ c with readBuffer := c.readBuffer ++ chunks.flatten }, some e)
      | .ok none => ({ c with readBuffer := c.readBuffer ++ chunks.flatten }, none)
      | .ok (some (completeRequest, rest)) =>
        match parse X completeRequest with
        | .error e => ({ c with readBuffer := rest }, some e)
        | .ok request => ({ c with readBuffer := rest }.handleRead S request, none) := by
  rw [← drain_eq]
  cases h : cutRequest (drain c.readBuffer chunks) with
  | error e => simp [HttpConnection.onReadable, h]
  | ok r =>
    cases r with
    | none => simp [HttpConnection.onReadable, h]
    | some p => cases hp : parse X p.1 <;> simp [HttpConnection.onReadable, h, hp]

theorem callFine_of_readable {chunks : List Bytes} (h : Readable X S (c.readBuffer ++ chunks.flatten)) :
    CallFine c chunks.flatten (c.onReadable X S ⟨chunks, .eagain⟩) := by
  rw [onReadable_eagain]
  cases hf : find crlfcrlf (c.readBuffer ++ chunks.flatten) with
  | none => rw [cutRequest_none hf]; exact ⟨rfl, Or.inl rfl⟩
  | some headerEnd =>
    obtain ⟨hb, hsize⟩ := h headerEnd hf
    rw [cutRequest_eq hf, if_neg hb]
    generalize hbuf : c.readBuffer ++ chunks.flatten = buf at hf hb hsize ⊢
    -- the header block is there; the request is cut short, or cut off and parsed
    by_cases hlt : buf.length < requestSize (buf.take headerEnd)
    · rw [if_pos hlt, ← hbuf]
      exact ⟨rfl, Or.inl rfl⟩
    · obtain ⟨hle, hm, hwf⟩ := hsize.resolve_left hlt
      obtain ⟨request, hr⟩ := readRequest_of_known X
        ((buf.drop (headerEnd + 4)).take (requestSize (buf.take headerEnd) - (headerEnd + 4))) hm
      have hparse : parse X (buf.take (requestSize (buf.take headerEnd))) = .ok request := (parse_take hf hle).trans hr
      simp only [if_neg hlt, hparse]
      have hcut : c.readBuffer ++ chunks.flatten =
          buf.take (requestSize (buf.take headerEnd)) ++ buf.drop (requestSize (buf.take headerEnd)) := by
        rw [hbuf, List.take_append_drop]
      refine ⟨rfl, Or.inr (answeredOnce_handleRead S c ?_ hcut ?_)⟩
      · intro he
        have := congrArg List.length he
        rw [List.length_take, List.length_nil] at this
        omega
      · rw [hbuf]
        rintro ⟨headerEnd', hf', hbad⟩
        rw [hf, Option.some.injEq] at hf'
        subst hf'
        exact hwf.resolve_left hbad request hparse

theorem not_callFine_unconsumed {request : HttpRequest} {received : Bytes} :
    ¬ CallFine c received ({ c with readBuffer := c.readBuffer ++ received }.handleRead S request, none) := by
  intro hfine
  rcases hfine.2 with h | ⟨⟨used, hne, hcut⟩, -⟩
  · have hl := congrArg (fun c : HttpConnection => c.handled.length) h
    simp at hl
  · rw [HttpConnection.handleRead_readBuffer] at hcut
    exact hne (List.self_eq_append_left.mp hcut)

theorem readable_of_callFine {chunks : List Bytes}
    (h : CallFine c chunks.flatten (c.onReadable X S ⟨chunks, .eagain⟩)) :
    Readable X S (c.readBuffer ++ chunks.flatten) := by
  intro headerEnd hf
  rw [onReadable_eagain, cutRequest_eq hf] at h
  generalize hbuf : c.readBuffer ++ chunks.flatten = buf at hf h ⊢
  by_cases hb : BlankLength (buf.take headerEnd)
  · rw [if_pos hb] at h
    cases h.1
  refine ⟨hb, ?_⟩
  by_cases hlt : buf.length < requestSize (buf.take headerEnd)
  · exact Or.inl hlt
  right
  rw [if_neg hb, if_neg hlt] at h
  by_cases hle : headerEnd + 4 ≤ requestSize (buf.take headerEnd)
  · by_cases hm : KnownMethod (buf.take headerEnd)
    · refine ⟨hle, hm, or_iff_not_imp_left.mpr fun hbad request hparse => ?_⟩
      simp only [hparse] at h
      rcases h.2 with hwait | hans
      · have hl := congrArg (fun c : HttpConnection => c.handled.length) hwait
        simp at hl
      · exact refuses_of_answeredOnce S c hans ⟨headerEnd, hbuf ▸ hf, hbuf ▸ hbad⟩
    · simp only [parse_take hf hle, readRequest_of_unknown X _ hm] at h
      cases h.1
  · exfalso
    -- the size wrapped: a cut inside the header block throws, an empty one consumes nothing
    simp only [parse_take_short (X := X) hf (Nat.lt_of_not_le hle)] at h
    by_cases h0 : requestSize (buf.take headerEnd) = 0
    · rw [h0, ← hbuf] at h
      exact not_callFine_unconsumed S c (by simpa using h)
    · rw [if_neg h0] at h
      cases h.1

/-- **One call.** It is fine exactly when it stops before the parse phase or
the buffer is readable. -/
theorem callFine_iff (d : Drain) :
    CallFine c d.chunks.flatten (c.onReadable X S d) ↔
      (d.stop = .eagain → Readable X S (c.readBuffer ++ d.chunks.flatten)) := by
  obtain ⟨chunks, stop⟩ := d
  cases stop with
  | eagain => exact ⟨fun h _ => readable_of_callFine X S c h, fun h => callFine_of_readable X S c (h rfl)⟩
  | error => simp [CallFine, HttpConnection.onReadable, drain_eq, Waited]
  | eof => simp [CallFine, HttpConnection.onReadable, drain_eq, Waited]

end

/-- **Runs.** Every call of a run is fine exactly when every call that reaches
the parse phase finds a readable buffer. -/
theorem calls_fine_iff (X : Externals) (S : ZvejysServer) (c : HttpConnection) (calls : List Drain) :
    Runs.EachStep (HttpConnection.readStep X S)
        (fun c d => CallFine c d.chunks.flatten (c.onReadable X S d)) c calls ↔
      Runs.EachStep (HttpConnection.readStep X S)
        (fun c d => d.stop = .eagain → Readable X S (c.readBuffer ++ d.chunks.flatten)) c calls :=
  forall_congr' fun _ => forall_congr' fun _ => forall_congr' fun _ => callFine_iff X S _ _

/-- A server with a route for `/`. -/
def rootServer : ZvejysServer := (ZvejysServer.new {} none).registerRoute .GET (bytes "/") (some fun _ => .ok (.ok []))

/-- The first call of that server is fine, when it reads just `text`. -/
def FineOnce (text : Bytes) : Prop :=
  Runs.EachStep (HttpConnection.readStep ⟨fun _ => .error .other, .GET⟩ rootServer)
    (fun c d => CallFine c d.chunks.flatten (c.onReadable ⟨fun _ => .error .other, .GET⟩ rootServer d)) {}
    [⟨[text], .eagain⟩]

theorem not_fineOnce_of_answered {text : Bytes} {headerEnd : Nat} {request : HttpRequest}
    (hf : find crlfcrlf text = some headerEnd) (hbad : ¬ WellFormedHeader (text.take headerEnd))
    (hlt : ¬ text.length < requestSize (text.take headerEnd))
    (hparse : parse ⟨fun _ => .error .other, .GET⟩ (text.take (requestSize (text.take headerEnd))) = .ok request)
    (hq : ∃ ran, rootServer.handleRead request = .queued ran (.ok [])) : ¬ FineOnce text := by
  intro h
  have hr := readable_of_callFine _ _ _ (h [] _ (List.prefix_refl _))
  rw [Runs.run_nil, List.nil_append, List.flatten_singleton] at hr
  obtain ⟨-, hsize⟩ := hr headerEnd hf
  obtain ⟨-, -, hwf⟩ := hsize.resolve_left hlt
  obtain ⟨ran', response, hq', herr⟩ := ZvejysServer.refuses_iff.mp (hwf.resolve_left hbad request hparse)
  obtain ⟨ran, hq⟩ := hq
  cases hq.symm.trans hq'
  exact absurd (show (400 : Int) ≤ 200 from herr) (by decide)

/-- A blank length at the end of the header block and an unknown method both
make an exception leave the first call; a length that is no number, and a request
line without its version, are answered with 200. -/
theorem calls_not_fine :
    ¬ FineOnce (bytes "GET / HTTP/1.1\r\nContent-Length: \r\n\r\n") ∧ ¬ FineOnce (bytes "BREW / HTTP/1.1\r\n\r\n") ∧
      ¬ FineOnce (bytes "GET / HTTP/1.1\r\nContent-Length: abc\r\n\r\n") ∧ ¬ FineOnce (bytes "GET /\r\n\r\n") := by
  refine ⟨?_, ?_, ?_, ?_⟩
  · exact fun h => absurd (h [] _ (List.prefix_refl _)).1 (by decide)
  · exact fun h => absurd (h [] _ (List.prefix_refl _)).1 (by decide)
  · exact not_fineOnce_of_answered (show _ = some 35 from rfl) (by decide) (by decide) rfl ⟨_, rfl⟩
  · exact not_fineOnce_of_answered (show _ = some 5 from rfl) (by decide) (by decide) rfl ⟨_, rfl⟩

/-! ## The size sum -/

/-- The bytes of the whole request, as a natural number. -/
def wholeSize (headerSection : Bytes) : Nat := headerSection.length + 4 + announced headerSection

/-- The front of the buffer is a whole request, and a cut takes exactly that. -/
def WholeRequest (buf text rest : Bytes) : Prop :=
  ∃ headerEnd, find crlfcrlf buf = some headerEnd ∧ headerEnd + 4 ≤ text.length ∧
    text.length = wholeSize (buf.take headerEnd) ∧ buf = text ++ rest

/-- A call handles a request only off a buffer that holds all of it, erases
exactly that, and hands exactly that to `Parse`. -/
structure CutsWhole (X : Externals) (S : ZvejysServer) (c : HttpConnection) (d : Drain) : Prop where
  parsed : d.stop = .eagain → ∀ text rest, cutRequest (c.readBuffer ++ d.chunks.flatten) = .ok (some (text, rest)) →
    WholeRequest (c.readBuffer ++ d.chunks.flatten) text rest
  handled : (c.onReadable X S d).1.handled ≠ c.handled → ∃ text,
    WholeRequest (c.readBuffer ++ d.chunks.flatten) text (c.onReadable X S d).1.readBuffer

/-- The size sum of a complete header block stays below the width of `size_t`. -/
def SumFits (buf : Bytes) : Prop :=
  ∀ headerEnd, find crlfcrlf buf = some headerEnd → ¬ BlankLength (buf.take headerEnd) →
    wholeSize (buf.take headerEnd) < sizeMod

theorem wholeRequest_of_cut {buf text rest : Bytes} (h : SumFits buf)
    (hcut : cutRequest buf = .ok (some (text, rest))) :
    WholeRequest buf text rest := by
  cases hf : find crlfcrlf buf with
  | none => rw [cutRequest_none hf] at hcut; cases hcut
  | some headerEnd =>
    have hlen := length_take_find hf
    rw [cutRequest_eq hf] at hcut
    split at hcut
    · cases hcut
    rename_i hb
    have hfits := h headerEnd hf hb
    have hsize : requestSize (buf.take headerEnd) = wholeSize (buf.take headerEnd) := Nat.mod_eq_of_lt hfits
    rw [hsize] at hcut
    split at hcut
    · cases hcut
    rename_i hlt
    simp only [Except.ok.injEq, Option.some.injEq, Prod.mk.injEq] at hcut
    obtain ⟨rfl, rfl⟩ := hcut
    have htext : (buf.take (wholeSize (buf.take headerEnd))).length = wholeSize (buf.take headerEnd) := by
      rw [List.length_take]
      omega
    refine ⟨headerEnd, hf, ?_, htext, (List.take_append_drop _ _).symm⟩
    rw [htext, wholeSize, hlen]
    omega

theorem cut_of_wrap {buf : Bytes} {headerEnd : Nat} (hbuf : buf.length < sizeMod)
    (hf : find crlfcrlf buf = some headerEnd) (hb : ¬ BlankLength (buf.take headerEnd))
    (hw : sizeMod ≤ wholeSize (buf.take headerEnd)) :
    ∃ text rest, cutRequest buf = .ok (some (text, rest)) ∧ text.length < headerEnd + 4 := by
  have hl := find_add_le hf
  rw [crlfcrlf_length] at hl
  have hlen := length_take_find hf
  have hn := announced_lt (buf.take headerEnd)
  have hsize : requestSize (buf.take headerEnd) = wholeSize (buf.take headerEnd) - sizeMod := by
    rw [requestSize, ← wholeSize, Nat.mod_eq_sub_mod hw, Nat.mod_eq_of_lt]
    rw [wholeSize, hlen]
    omega
  have hshort : wholeSize (buf.take headerEnd) - sizeMod < headerEnd + 4 := by
    rw [wholeSize, hlen]
    omega
  rw [cutRequest_eq hf, if_neg hb, hsize, if_neg (by omega)]
  refine ⟨_, _, rfl, ?_⟩
  rw [List.length_take]
  omega

theorem handled_cut {X : Externals} {S : ZvejysServer} {c : HttpConnection} {d : Drain}
    (h : (c.onReadable X S d).1.handled ≠ c.handled) : d.stop = .eagain ∧ ∃ text,
      cutRequest (c.readBuffer ++ d.chunks.flatten) = .ok (some (text, (c.onReadable X S d).1.readBuffer)) := by
  obtain ⟨chunks, stop⟩ := d
  cases stop with
  | error => exact absurd rfl h
  | eof => exact absurd rfl h
  | eagain =>
    refine ⟨rfl, ?_⟩
    rw [onReadable_eagain] at h ⊢
    cases hcut : cutRequest (c.readBuffer ++ chunks.flatten) with
    | error e => simp [hcut] at h
    | ok r =>
      cases r with
      | none => simp [hcut] at h
      | some p =>
        refine ⟨p.1, ?_⟩
        cases hp : parse X p.1 with
        | error e => simp [hcut, hp] at h
        | ok request => simp [hp]

/-- **The size sum.** A call on a buffer that a `size_t` can measure cuts whole
requests exactly when the sum does not wrap. -/
theorem cutsWhole_iff (X : Externals) (S : ZvejysServer) (c : HttpConnection) (d : Drain)
    (hbuf : (c.readBuffer ++ d.chunks.flatten).length < sizeMod) :
    CutsWhole X S c d ↔ (d.stop = .eagain → SumFits (c.readBuffer ++ d.chunks.flatten)) := by
  constructor
  · intro h hstop headerEnd hf hb
    by_contra hw
    obtain ⟨text, rest, hcut, hshort⟩ := cut_of_wrap hbuf hf hb (Nat.le_of_not_lt hw)
    obtain ⟨headerEnd', hf', hle, -⟩ := h.parsed hstop text rest hcut
    rw [hf, Option.some.injEq] at hf'
    omega
  · intro h
    refine ⟨fun hstop text rest => wholeRequest_of_cut (h hstop), fun hne => ?_⟩
    obtain ⟨hstop, text, hcut⟩ := handled_cut hne
    exact ⟨text, wholeRequest_of_cut (h hstop) hcut⟩

theorem cutsWhole_post :
    CutsWhole ⟨fun _ => .error .other, .GET⟩ (.new {} none) {}
      ⟨[bytes "POST / HTTP/1.1\r\nContent-Length: 3\r\n\r\nabc"], .eagain⟩ :=
  (cutsWhole_iff _ _ _ _ (by decide)).mpr fun _ headerEnd hf _ => by
    rw [show find crlfcrlf _ = some 34 from rfl, Option.some.injEq] at hf
    subst hf
    decide

/-- The largest length: the sum wraps to one byte less than the header block,
and `Parse` is given a text without its last byte. -/
theorem not_cutsWhole_largest :
    ¬ CutsWhole ⟨fun _ => .error .other, .GET⟩ (.new {} none) {}
      ⟨[bytes "POST / HTTP/1.1\r\nContent-Length: 18446744073709551615\r\n\r\n"], .eagain⟩ := by
  intro h
  obtain ⟨headerEnd, hf, hle, -⟩ := h.parsed rfl _ _ rfl
  rw [show find crlfcrlf _ = some 53 from rfl, Option.some.injEq] at hf
  subst hf
  exact absurd hle (by decide)

end Ryklys
