import Ryklys.HttpParse

/-!
# The scans of `Parse`

The loops of `HttpConnection::Parse` against the text cut into lines and into
pieces. The header loop reads the lines behind the request line, once there is
a CRLF (`readsExactly_iff`); the query loop reads the pieces between the `&`
(`target_parsed`).
-/

namespace Ryklys

open Search

/-! ## Lines -/

def crlfLines : Bytes → List Bytes
  | [] => [[]]
  | 13 :: 10 :: s => [] :: crlfLines s
  | c :: s => (crlfLines s).modifyHead (c :: ·)

theorem crlf_prefix_iff {c : UInt8} {s : Bytes} : crlf <+: c :: s ↔ c = 13 ∧ ∃ t, s = 10 :: t := by
  constructor
  · rintro ⟨t, ht⟩
    cases ht
    exact ⟨rfl, t, rfl⟩
  · rintro ⟨rfl, t, rfl⟩
    exact ⟨t, rfl⟩

theorem crlfLines_cons {c : UInt8} {s : Bytes} (h : ¬ crlf <+: c :: s) :
    crlfLines (c :: s) = (crlfLines s).modifyHead (c :: ·) := by
  rw [crlfLines]
  intro t hc hs
  exact h (crlf_prefix_iff.mpr ⟨hc, t, hs⟩)

theorem crlfLines_none {s : Bytes} (h : find crlf s = none) : crlfLines s = [s] := by
  induction s with
  | nil => rfl
  | cons c s ih =>
    rw [find_cons] at h
    split at h
    · cases h
    · rename_i hp
      rw [crlfLines_cons hp, ih (by simpa using h), List.modifyHead_cons]

theorem crlfLines_some {s : Bytes} {i : Nat} (h : find crlf s = some i) :
    crlfLines s = s.take i :: crlfLines (s.drop (i + 2)) := by
  induction s generalizing i with
  | nil => cases h
  | cons c s ih =>
    rw [find_cons] at h
    split at h
    · rename_i hp
      obtain ⟨rfl, t, rfl⟩ := crlf_prefix_iff.mp hp
      cases h
      rfl
    · rename_i hp
      obtain ⟨k, hk, rfl⟩ := Option.map_eq_some_iff.mp h
      rw [crlfLines_cons hp, ih hk, List.modifyHead_cons]
      simp

/-! ## Header lines -/

/-- A value without its leading spaces, unless it is all spaces. -/
def trimmed (value : Bytes) : Bytes :=
  if value.all (· == 32) then value else value.dropWhile (· == 32)

def headerOf (line : Bytes) : Option (Bytes × Bytes) := (cutAt 58 line).map fun p => (p.1, trimmed p.2)

def putHeader (headers : StrMap) (line : Bytes) : StrMap :=
  match headerOf line with
  | some (key, value) => headers.insert key value
  | none => headers

/-- The map the lines make, later ones winning. -/
def headersOf (lines : List Bytes) : StrMap := lines.foldl putHeader ∅

theorem trimValue_eq (value : Bytes) : trimValue value = trimmed value := by
  have hmem : ∀ c : UInt8, c ∈ bytes " " ↔ c = 32 := by
    intro c
    simp [show bytes " " = [32] from rfl]
  unfold trimValue trimmed
  cases h : findFirstNotOf (bytes " ") value 0 with
  | none =>
    have hall : ∀ c ∈ value, c = 32 := fun c hc => (hmem c).mp (findFirstNotOf_none.mp h c (by simpa using hc))
    rw [if_pos (by simpa using hall)]
  | some i =>
    have hall : ¬ ∀ c ∈ value, c = 32 := by
      intro hall
      rw [findFirstNotOf_none.mpr fun c hc => (hmem c).mpr (hall c (List.mem_of_mem_drop hc))] at h
      cases h
    rw [if_neg (by simpa using hall)]
    simp only [drop_findFirstNotOf h, List.drop_zero]
    congr 1
    funext c
    rw [Bool.eq_iff_iff, decide_eq_true_eq, hmem, beq_iff_eq]

theorem addHeader_eq (headers : StrMap) (line : Bytes) : addHeader headers line = putHeader headers line := by
  have hsplit : splitHeader line = headerOf line := by
    have hcut := map_find_singleton 58 line
    rw [headerOf, ← hcut, Option.map_map, splitHeader]
    simp only [trimValue_eq]
    rfl
  cases hl : headerOf line with
  | none => simp only [addHeader, putHeader, hsplit, hl]
  | some field => simp only [addHeader, putHeader, hsplit, hl]

/-- The header loop reads the lines of its text, however much fuel it has. -/
theorem headerLoop_lines (fuel : Nat) : ∀ (s : Bytes) (headers : StrMap), s.length ≤ fuel →
    headerLoop fuel s headers = (crlfLines s).foldl putHeader headers := by
  induction fuel with
  | zero =>
    intro s headers h
    rw [List.length_eq_zero_iff.mp (Nat.le_zero.mp h)]
    rfl
  | succ fuel ih =>
    intro s headers h
    by_cases hnil : s = []
    · rw [hnil]
      rfl
    have hpos := List.length_pos_of_ne_nil hnil
    rw [headerLoop, if_neg hnil]
    simp only
    rw [ih _ _ (by rw [List.length_drop]; omega), addHeader_eq]
    cases hf : find crlf s with
    | none =>
      rw [crlfLines_none hf, Option.getD_none, List.take_length, List.drop_eq_nil_of_le (by omega)]
      rfl
    | some i =>
      rw [crlfLines_some hf]
      rfl

/-! ## Reading exactly -/

/-- The headers are those of the lines behind the request line, and the body is
what follows the first empty line. -/
def ReadsExactly (X : Externals) (buffer : Bytes) (headerEnd : Nat) : Prop :=
  ∃ request, parse X buffer = .ok request ∧
    request.headers = headersOf (crlfLines (buffer.take headerEnd)).tail ∧
    request.body = buffer.drop (headerEnd + 4)

theorem headersOf_nil : headersOf [] = ∅ := rfl

theorem parseHeaders_of_crlf {headerSection : Bytes} (h : (find crlf headerSection).isSome) :
    parseHeaders headerSection = headersOf (crlfLines headerSection).tail := by
  obtain ⟨i, hi⟩ := Option.isSome_iff_exists.mp h
  rw [parseHeaders, headerLoop_lines _ _ _ (Nat.le_refl _), headerText, hi, crlfLines_some hi]
  rfl

/-- Without a CRLF the request line is read again, from its second byte on. -/
theorem parseHeaders_of_no_crlf {headerSection : Bytes} (h : find crlf headerSection = none) :
    parseHeaders headerSection = putHeader ∅ (headerSection.drop 1) := by
  have h1 : find crlf (headerSection.drop 1) = none := by
    rw [find_eq_none] at h ⊢
    intro hi
    exact h (hi.trans (List.drop_suffix _ _).isInfix)
  rw [parseHeaders, headerLoop_lines _ _ _ (Nat.le_refl _), headerText, h, crlfLines_none h1]
  rfl

theorem putHeader_eq_empty {line : Bytes} : putHeader ∅ line = ∅ ↔ 58 ∉ line := by
  rcases find_singleton_cases 58 line with ⟨hn, -⟩ | ⟨key, value, rfl, hn, -⟩
  · simp [putHeader, headerOf, cutAt_none hn, hn]
  · simp only [putHeader, headerOf, cutAt_append hn, Option.map_some, List.mem_append, List.mem_cons, true_or, or_true,
      not_true, iff_false]
    intro he
    have hl := congrArg (AList.lookup key) he
    rw [AList.lookup_insert, AList.lookup_empty] at hl
    cases hl

/-- **Headers and body.** They are read exactly when there is a header line, or
no colon behind the first byte of the request line. -/
theorem readsExactly_iff (X : Externals) {buffer : Bytes} {headerEnd : Nat}
    (hf : find crlfcrlf buffer = some headerEnd) (hm : KnownMethod (buffer.take headerEnd)) :
    ReadsExactly X buffer headerEnd ↔
      (find crlf (buffer.take headerEnd)).isSome ∨ 58 ∉ (buffer.take headerEnd).drop 1 := by
  obtain ⟨request, hr⟩ := readRequest_of_known X (buffer.drop (headerEnd + 4)) hm
  obtain ⟨-, hheaders, hbody⟩ := readRequest_ok hr
  rw [← parse_of_find X hf] at hr
  have hexact : ReadsExactly X buffer headerEnd ↔
      parseHeaders (buffer.take headerEnd) = headersOf (crlfLines (buffer.take headerEnd)).tail := by
    constructor
    · rintro ⟨request', hr', hh, -⟩
      rw [hr, Except.ok.injEq] at hr'
      rw [← hheaders, hr', hh]
    · intro h
      exact ⟨request, hr, hheaders.trans h, hbody⟩
  rw [hexact]
  cases hl : find crlf (buffer.take headerEnd) with
  | some i =>
    simp [parseHeaders_of_crlf (show (find crlf (buffer.take headerEnd)).isSome by rw [hl]; rfl)]
  | none =>
    rw [parseHeaders_of_no_crlf hl, crlfLines_none hl, List.tail_cons, headersOf_nil, putHeader_eq_empty]
    simp

theorem readsExactly_get :
    ReadsExactly ⟨fun _ => .error .other, .GET⟩ (bytes "GET /a:b HTTP/1.1\r\nA: b\r\n\r\nxy") 23 :=
  (readsExactly_iff _ rfl ⟨.GET, rfl⟩).mpr (Or.inl rfl)

/-- Of a request without header lines the request line becomes a header. -/
theorem not_readsExactly_get :
    find crlfcrlf (bytes "GET /a:b HTTP/1.1\r\n\r\n") = some 17 ∧
    KnownMethod ((bytes "GET /a:b HTTP/1.1\r\n\r\n").take 17) ∧
    ¬ ReadsExactly ⟨fun _ => .error .other, .GET⟩ (bytes "GET /a:b HTTP/1.1\r\n\r\n") 17 := by
  refine ⟨rfl, ⟨.GET, rfl⟩, ?_⟩
  rintro ⟨request, hr, hh, -⟩
  have hl : request.headers.lookup (bytes "ET /a") = some (bytes "b HTTP/1.1") := by
    cases hr
    rfl
  rw [hh] at hl
  exact absurd hl (by decide)

/-! ## The request target -/

def targetWord (headerSection : Bytes) : Bytes := (nextWord (nextWord (requestLine headerSection)).2).1

def targetPath (target : Bytes) : Bytes := target.takeWhile fun c => decide (c ≠ 63)

def targetQuery (target : Bytes) : Bytes := (target.dropWhile fun c => decide (c ≠ 63)).drop 1

def putParam (params : StrMap) (piece : Bytes) : StrMap :=
  match cutAt 61 piece with
  | some (key, value) => params.insert key value
  | none => params

/-- The map the pieces between the `&` make, later ones winning. -/
def paramsOf (query : Bytes) : StrMap := (query.splitOn 38).foldl putParam ∅

def joinPairs (pairs : List (Bytes × Bytes)) : Bytes := [38].intercalate (pairs.map fun p => p.1 ++ 61 :: p.2)

/-- What can be written as a query string and read back. -/
structure Joinable (pairs : List (Bytes × Bytes)) : Prop where
  distinct : (pairs.map Prod.fst).Nodup
  keys : ∀ p ∈ pairs, 38 ∉ p.1 ∧ 61 ∉ p.1
  values : ∀ p ∈ pairs, 38 ∉ p.2

theorem putParam_none {params : StrMap} {piece : Bytes} (h : 61 ∉ piece) : putParam params piece = params := by
  rw [putParam, cutAt_none h]

theorem putParam_pair {params : StrMap} {key : Bytes} (value : Bytes) (h : 61 ∉ key) :
    putParam params (key ++ 61 :: value) = params.insert key value := by
  rw [putParam, cutAt_append h]

theorem queryLoop_last {fuel : Nat} {s : Bytes} (hne : s ≠ []) (h : 38 ∉ s) (params : StrMap) :
    queryLoop (fuel + 1) s params = queryLoop fuel [] (putParam params s) := by
  rw [queryLoop, if_neg hne]
  simp only [show find (bytes "&") s = none from find_singleton_none h, Option.getD_none,
    List.drop_eq_nil_of_le (Nat.le_succ s.length)]
  congr 1
  rcases find_singleton_cases 61 s with ⟨hn, hf⟩ | ⟨key, value, rfl, hn, hf⟩
  · rw [show find (bytes "=") s = none from hf, putParam_none hn]
  · rw [show find (bytes "=") _ = some key.length from hf, putParam_pair value hn]
    simp only [List.take_left, drop_append_sep]
    rw [if_pos (by simp), List.take_of_length_le (by simp)]

/-- A piece up to the next `&`; an `=` behind that does not count. -/
theorem queryLoop_piece {fuel : Nat} {piece s : Bytes} (h : 38 ∉ piece) (params : StrMap) :
    queryLoop (fuel + 1) (piece ++ 38 :: s) params = queryLoop fuel s (putParam params piece) := by
  have heq : find (bytes "=") (piece ++ 38 :: s) =
      (find [61] piece).or ((find [61] s).map (· + (piece.length + 1))) := find_append_sep (by decide) s piece
  rw [queryLoop, if_neg (by simp)]
  simp only [show find (bytes "&") (piece ++ 38 :: s) = some piece.length from find_singleton s h, Option.getD_some,
    drop_append_sep, heq]
  congr 1
  rcases find_singleton_cases 61 piece with ⟨hn, hf⟩ | ⟨key, value, rfl, hn, hf⟩
  · rw [hf, Option.none_or, putParam_none hn]
    cases find [61] s with
    | none => rfl
    | some j =>
      simp only [Option.map_some]
      rw [if_neg (by omega)]
  · have hkey : (key ++ 61 :: value ++ 38 :: s).take key.length = key := by
      rw [List.append_assoc, List.take_left]
    have hvalue : (key ++ 61 :: value ++ 38 :: s).drop (key.length + 1) = value ++ 38 :: s := by
      rw [List.append_assoc, List.cons_append, drop_append_sep]
    rw [hf, Option.some_or, putParam_pair value hn]
    simp only [hkey, hvalue]
    rw [if_pos (by simp), List.length_append, List.length_cons, List.take_left' (by omega)]

theorem queryLoop_nil (fuel : Nat) (params : StrMap) : queryLoop fuel [] params = params := by
  cases fuel <;> rfl

/-- The query loop reads the pieces of its text, however much fuel it has. -/
theorem queryLoop_pieces (fuel : Nat) : ∀ (s : Bytes) (params : StrMap), s.length ≤ fuel →
    queryLoop fuel s params = (s.splitOn 38).foldl putParam params := by
  induction fuel with
  | zero =>
    intro s params h
    rw [List.length_eq_zero_iff.mp (Nat.le_zero.mp h)]
    rfl
  | succ fuel ih =>
    intro s params h
    rcases find_singleton_cases 38 s with ⟨hn, -⟩ | ⟨piece, rest, rfl, hn, -⟩
    · rw [List.splitOn_eq_singleton hn]
      by_cases hnil : s = []
      · rw [hnil]
        rfl
      · rw [queryLoop_last hnil hn, queryLoop_nil]
        rfl
    · rw [List.length_append, List.length_cons] at h
      rw [queryLoop_piece hn, List.splitOn_append_cons_self_of_not_mem hn, List.foldl_cons, ih rest _ (by omega)]

theorem readRequest_target {X : Externals} {headerSection body : Bytes} {r : HttpRequest}
    (h : readRequest X headerSection body = .ok r) :
    (r.path, r.queryString, r.queryParams) = splitTarget (targetWord headerSection) := by
  unfold readRequest at h
  cases hm : getEnumForString (methodWord headerSection) with
  | error e => rw [hm] at h; cases h
  | ok m =>
    rw [hm] at h
    cases h
    rfl

theorem splitTarget_eq (target : Bytes) :
    splitTarget target = (targetPath target, targetQuery target, paramsOf (targetQuery target)) := by
  unfold splitTarget targetPath targetQuery
  rcases find_singleton_cases 63 target with ⟨hn, hf⟩ | ⟨path, query, rfl, hn, hf⟩
  · rw [show find (bytes "?") target = none from hf, takeWhile_sep hn, dropWhile_sep hn]
    rfl
  · rw [show find (bytes "?") _ = some path.length from hf, takeWhile_append_sep hn, dropWhile_append_sep hn]
    simp only [List.take_left, drop_append_sep, List.drop_one, List.tail_cons]
    rw [queryLoop_pieces _ _ _ (Nat.le_refl _)]
    rfl

/-! ## The round trip -/

theorem lookup_foldl_putParam (key : Bytes) (pairs : List (Bytes × Bytes)) : ∀ params : StrMap,
    (pairs.map Prod.fst).Nodup → (∀ p ∈ pairs, 61 ∉ p.1) →
    ((pairs.map fun p => p.1 ++ 61 :: p.2).foldl putParam params).lookup key =
      (pairs.lookup key).or (params.lookup key) := by
  induction pairs with
  | nil => intro params _ _; rfl
  | cons p pairs ih =>
    intro params hd hk
    rw [List.map_cons, List.nodup_cons] at hd
    rw [List.map_cons, List.foldl_cons, putParam_pair p.2 (hk p List.mem_cons_self),
      ih _ hd.2 fun q hq => hk q (List.mem_cons_of_mem p hq)]
    by_cases h : key = p.1
    · subst h
      have hn : pairs.lookup p.1 = none := by
        rw [List.lookup_eq_none_iff]
        intro q hq
        have : p.1 ≠ q.1 := fun he => hd.1 (he ▸ List.mem_map_of_mem hq)
        simpa using this
      rw [hn, Option.none_or, AList.lookup_insert, List.lookup_cons, beq_self_eq_true]
      rfl
    · rw [AList.lookup_insert_ne h, List.lookup_cons, beq_false_of_ne h]

theorem splitOn_joinPairs {pairs : List (Bytes × Bytes)} (h : Joinable pairs) (hne : pairs ≠ []) :
    (joinPairs pairs).splitOn 38 = pairs.map fun p => p.1 ++ 61 :: p.2 := by
  apply List.splitOn_intercalate
  · intro piece hpiece
    obtain ⟨p, hp, rfl⟩ := List.mem_map.mp hpiece
    rw [List.mem_append, List.mem_cons, not_or, not_or]
    exact ⟨(h.keys p hp).1, by decide, h.values p hp⟩
  · simpa using hne

theorem lookup_paramsOf_joinPairs {pairs : List (Bytes × Bytes)} (h : Joinable pairs) (key : Bytes) :
    (paramsOf (joinPairs pairs)).lookup key = pairs.lookup key := by
  by_cases hnil : pairs = []
  · subst hnil
    rfl
  · rw [paramsOf, splitOn_joinPairs h hnil, lookup_foldl_putParam key pairs ∅ h.distinct fun p hp => (h.keys p hp).2,
      AList.lookup_empty, Option.or_none]

/-- **Request target.** Path, query string and parameters are those of the text
cut at the first `?` and then at every `&`; the query loop ends by itself; a
request with this target and a known method is parsed; and joined pairs are read
back. -/
theorem target_parsed (target : Bytes) :
    splitTarget target = (targetPath target, targetQuery target, paramsOf (targetQuery target)) ∧
    (∀ fuel, (targetQuery target).length ≤ fuel →
      queryLoop fuel (targetQuery target) ∅ = paramsOf (targetQuery target)) ∧
    (∀ X buffer headerEnd, find crlfcrlf buffer = some headerEnd → targetWord (buffer.take headerEnd) = target →
      (KnownMethod (buffer.take headerEnd) → ∃ request, parse X buffer = .ok request) ∧
      ∀ request, parse X buffer = .ok request →
        request.path = targetPath target ∧ request.queryString = targetQuery target ∧
          request.queryParams = paramsOf (targetQuery target)) ∧
    (∀ path pairs, 63 ∉ path → Joinable pairs → target = path ++ 63 :: joinPairs pairs →
      targetPath target = path ∧ ∀ key, (paramsOf (targetQuery target)).lookup key = pairs.lookup key) := by
  refine ⟨splitTarget_eq target, fun fuel => queryLoop_pieces fuel _ _, ?_, ?_⟩
  · intro X buffer headerEnd hf ht
    rw [parse_of_find X hf]
    refine ⟨readRequest_of_known X _, fun request hp => ?_⟩
    have h := readRequest_target hp
    rw [ht, splitTarget_eq] at h
    simpa using h
  · rintro path pairs hn hj rfl
    have hquery : targetQuery (path ++ 63 :: joinPairs pairs) = joinPairs pairs := by
      rw [targetQuery, dropWhile_append_sep hn]
      rfl
    rw [hquery]
    exact ⟨takeWhile_append_sep hn _, lookup_paramsOf_joinPairs hj⟩

theorem target_parsed_view : ∃ request,
    parse ⟨fun _ => .error .other, .GET⟩ (bytes "GET /ws/view?streamId=bob&x&limit=20&& HTTP/1.1\r\n\r\n") = .ok request ∧
    request.path = bytes "/ws/view" ∧ request.queryParams.lookup (bytes "streamId") = some (bytes "bob") ∧
    request.queryParams.lookup (bytes "limit") = some (bytes "20") ∧ request.queryParams.lookup (bytes "x") = none := by
  have hf : find crlfcrlf (bytes "GET /ws/view?streamId=bob&x&limit=20&& HTTP/1.1\r\n\r\n") = some 47 := rfl
  obtain ⟨hreads, hsets⟩ := (target_parsed (bytes "/ws/view?streamId=bob&x&limit=20&&")).2.2.1
    ⟨fun _ => .error .other, .GET⟩ _ 47 hf rfl
  obtain ⟨request, hr⟩ := hreads ⟨.GET, rfl⟩
  obtain ⟨hpath, -, hparams⟩ := hsets request hr
  refine ⟨request, hr, hpath, ?_, ?_, ?_⟩
  · rw [hparams]
    decide
  · rw [hparams]
    decide
  · rw [hparams]
    decide

example : (paramsOf (bytes "a=1&b&=x=y?&a=2")).entries = [⟨bytes "a", bytes "2"⟩, ⟨[], bytes "x=y?"⟩] := by decide

end Ryklys
