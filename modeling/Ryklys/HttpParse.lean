import Ryklys.HttpMessage

/-!
# Parsing a request

`HttpConnection::Parse`. The header loop walks the header block line by line;
`headerLoop_eq` says what it leaves in the map: the fold of `addHeader` over
the lines, so the last line of a name decides its value (`lookup_headers`).
-/

namespace Ryklys

open Search

inductive JsonItem where
  | string (s : Bytes)
  | other (dump : Except Exn Bytes)

/-- What `Parse` takes from outside: the JSON library's view of a body (its
items in iteration order, or the exception of `json::parse`) and the value an
uninitialised `HttpMethod` happens to hold. -/
structure Externals where
  jsonItems : Bytes → Except Exn (List (Bytes × JsonItem))
  indeterminate : HttpMethod

/-! ## Query string -/

/-- The loop over `qs` from its unread part on; a round drops the part up to
and including the next `&`. -/
def queryLoop : Nat → Bytes → StrMap → StrMap
  | 0, _, params => params
  | fuel + 1, s, params =>
    if s = [] then params
    else
      let amp := (find (bytes "&") s).getD s.length
      let params := match find (bytes "=") s with
        | some eq => if eq < amp then params.insert (s.take eq) ((s.drop (eq + 1)).take (amp - eq - 1)) else params
        | none => params
      queryLoop fuel (s.drop (amp + 1)) params

def splitTarget (target : Bytes) : Bytes × Bytes × StrMap :=
  match find (bytes "?") target with
  | some queryPos =>
    let qs := target.drop (queryPos + 1)
    (target.take queryPos, qs, queryLoop qs.length qs ∅)
  | none => (target, [], ∅)

/-! ## Headers -/

def trimValue (value : Bytes) : Bytes :=
  match findFirstNotOf (bytes " ") value 0 with
  | some valStart => value.drop valStart
  | none => value

def splitHeader (line : Bytes) : Option (Bytes × Bytes) :=
  (find (bytes ":") line).map fun colon => (line.take colon, trimValue (line.drop (colon + 1)))

def addHeader (headers : StrMap) (line : Bytes) : StrMap :=
  match splitHeader line with
  | some (key, value) => headers.insert key value
  | none => headers

/-- The loop over the header section from position `pos` on, on its unread part. -/
def headerLoop : Nat → Bytes → StrMap → StrMap
  | 0, _, headers => headers
  | fuel + 1, s, headers =>
    if s = [] then headers
    else
      let lineEnd := (find crlf s).getD s.length
      headerLoop fuel (s.drop (lineEnd + 2)) (addHeader headers (s.take lineEnd))

/-- What the header loop starts on. Without a CRLF in the section
`first_line_end` is `npos`, and `npos + 2` wraps to 1. -/
def headerText (headerSection : Bytes) : Bytes :=
  match find crlf headerSection with
  | some firstLineEnd => headerSection.drop (firstLineEnd + 2)
  | none => headerSection.drop 1

def parseHeaders (headerSection : Bytes) : StrMap :=
  headerLoop (headerText headerSection).length (headerText headerSection) ∅

def headerLines : Nat → Bytes → List Bytes
  | 0, _ => []
  | fuel + 1, s =>
    if s = [] then []
    else
      let lineEnd := (find crlf s).getD s.length
      s.take lineEnd :: headerLines fuel (s.drop (lineEnd + 2))

def fieldLines (headerSection : Bytes) : List Bytes :=
  headerLines (headerText headerSection).length (headerText headerSection)

def fieldValue (name line : Bytes) : Option Bytes :=
  match splitHeader line with
  | some (key, value) => if key = name then some value else none
  | none => none

def lastValue (name : Bytes) (lines : List Bytes) : Option Bytes := lines.reverse.findSome? (fieldValue name)

theorem headerLoop_eq : ∀ (fuel : Nat) (s : Bytes) (headers : StrMap),
    headerLoop fuel s headers = (headerLines fuel s).foldl addHeader headers
  | 0, _, _ => rfl
  | fuel + 1, s, headers => by
    simp only [headerLoop, headerLines]
    split
    · rfl
    · rw [List.foldl_cons, headerLoop_eq fuel]

theorem lookup_addHeader (headers : StrMap) (line name : Bytes) :
    (addHeader headers line).lookup name = (fieldValue name line).or (headers.lookup name) := by
  unfold addHeader fieldValue
  cases splitHeader line with
  | none => rfl
  | some kv =>
    obtain ⟨key, value⟩ := kv
    by_cases h : key = name
    · subst h; simp
    · simp [h, AList.lookup_insert_ne (Ne.symm h)]

theorem lookup_foldl_addHeader (name : Bytes) : ∀ (lines : List Bytes) (headers : StrMap),
    (lines.foldl addHeader headers).lookup name = (lastValue name lines).or (headers.lookup name)
  | [], headers => rfl
  | line :: lines, headers => by
    rw [List.foldl_cons, lookup_foldl_addHeader name lines, lookup_addHeader]
    simp only [lastValue, List.reverse_cons, List.findSome?_append, Option.or_assoc, List.findSome?_singleton]

/-- **Later duplicates win.** A header's value is the one on the last line of
its name. -/
theorem lookup_headers (headerSection name : Bytes) :
    (parseHeaders headerSection).lookup name = lastValue name (fieldLines headerSection) := by
  rw [parseHeaders, headerLoop_eq, lookup_foldl_addHeader, AList.lookup_empty, Option.or_none]
  rfl

/-! ## Body parameters -/

/-- The loop over the items; a `dump` that throws ends it with what is there. -/
def collectParams : List (Bytes × JsonItem) → StrMap → StrMap
  | [], params => params
  | (key, .string s) :: items, params => collectParams items (params.insert key s)
  | (key, .other (.ok d)) :: items, params => collectParams items (params.insert key d)
  | (_, .other (.error _)) :: _, params => params

def bodyParams (X : Externals) (headers : StrMap) (body : Bytes) : StrMap :=
  match headers.lookup (bytes "Content-Type") with
  | some ct =>
    if (find (bytes "application/json") ct).isSome ∧ body ≠ [] then
      match X.jsonItems body with
      | .ok items => collectParams items ∅
      | .error _ => ∅
    else ∅
  | none => ∅

/-! ## The request -/

def requestLine (headerSection : Bytes) : Bytes :=
  headerSection.take ((find crlf headerSection).getD headerSection.length)

def methodWord (headerSection : Bytes) : Bytes := (nextWord (requestLine headerSection)).1

def readRequest (X : Externals) (headerSection body : Bytes) : Except Exn HttpRequest := do
  let target := nextWord (nextWord (requestLine headerSection)).2
  let version := (nextWord target.2).1
  let method ← getEnumForString (methodWord headerSection)
  let (path, queryString, queryParams) := splitTarget target.1
  let headers := parseHeaders headerSection
  return { method, path, version, queryString, headers, queryParams, body,
           bodyParams := bodyParams X headers body }

def parse (X : Externals) (buffer : Bytes) : Except Exn HttpRequest :=
  if buffer = [] then .ok { method := X.indeterminate }
  else
    match find crlfcrlf buffer with
    | none => .error .runtimeError
    | some headerEnd => readRequest X (buffer.take headerEnd) (buffer.drop (headerEnd + 4))

def KnownMethod (headerSection : Bytes) : Prop := ∃ m, getEnumForString (methodWord headerSection) = .ok m

instance (headerSection : Bytes) : Decidable (KnownMethod headerSection) :=
  match h : getEnumForString (methodWord headerSection) with
  | .ok m => isTrue ⟨m, h⟩
  | .error _ => isFalse fun ⟨m, hm⟩ => by rw [h] at hm; cases hm

theorem getEnumForString_error {w : Bytes} {e : Exn} (h : getEnumForString w = .error e) : e = .invalidArgument := by
  unfold getEnumForString at h
  repeat' split at h
  all_goals cases h
  rfl

theorem readRequest_ok {X : Externals} {headerSection body : Bytes} {r : HttpRequest}
    (h : readRequest X headerSection body = .ok r) :
    KnownMethod headerSection ∧ r.headers = parseHeaders headerSection ∧ r.body = body := by
  unfold readRequest at h
  cases hm : getEnumForString (methodWord headerSection) with
  | error e => rw [hm] at h; cases h
  | ok m =>
    rw [hm] at h
    cases h
    exact ⟨⟨m, hm⟩, rfl, rfl⟩

theorem readRequest_of_known (X : Externals) {headerSection : Bytes} (body : Bytes) (h : KnownMethod headerSection) :
    ∃ r, readRequest X headerSection body = .ok r := by
  obtain ⟨m, hm⟩ := h
  unfold readRequest
  rw [hm]
  exact ⟨_, rfl⟩

theorem readRequest_of_unknown (X : Externals) {headerSection : Bytes} (body : Bytes) (h : ¬ KnownMethod headerSection) :
    readRequest X headerSection body = .error .invalidArgument := by
  unfold readRequest
  cases hm : getEnumForString (methodWord headerSection) with
  | error e => rw [getEnumForString_error hm]; rfl
  | ok m => exact absurd ⟨m, hm⟩ h

theorem parse_of_find (X : Externals) {buffer : Bytes} {headerEnd : Nat} (h : find crlfcrlf buffer = some headerEnd) :
    parse X buffer = readRequest X (buffer.take headerEnd) (buffer.drop (headerEnd + 4)) := by
  have hne : buffer ≠ [] := by
    intro he
    subst he
    cases h
  rw [parse, if_neg hne, h]

end Ryklys
