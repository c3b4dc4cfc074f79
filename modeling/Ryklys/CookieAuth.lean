import Ryklys.HttpMessage
import Ryklys.TokenSound

/-!
# Authentication by cookie

`ExtractAuthenticatedUserFromRequest` looks for the text `token=` anywhere in
the `Cookie` header. In a header made of pairs it therefore takes the text
behind the first occurrence in any pair (`tokenOf_cookieText`), which is the
value of the cookie `token` only if no pair before it has that text in its name
or value (`extract_iff`).
-/

namespace Ryklys

open Search

def tokenKey : Bytes := bytes "token="

/-- The token in a cookie header; empty when there is none. -/
def tokenOf (cookie : Bytes) : Bytes :=
  match find tokenKey cookie with
  | some pos =>
    let start := pos + 6
    match findFrom (bytes ";") cookie start with
    | some end_ => (cookie.drop start).take (end_ - start)
    | none => cookie.drop start
  | none => []

/-- `jwtSecret` is `JWT_SECRET`, `now` the clock; an exception of `Verify` is caught. -/
def extractAuthenticatedUserFromRequest (jwtSecret : Option Bytes) (now : Int) (request : HttpRequest) :
    Option AuthenticatedUser :=
  let token := match request.headers.lookup (bytes "Cookie") with
    | some cookie => tokenOf cookie
    | none => []
  if token = [] then none
  else
    match jwtSecret with
    | none => none
    | some secret =>
      match jwt.verify token secret now with
      | .ok (some claims) => some { id := claims.id, username := claims.username }
      | _ => none

/-! ## Headers made of pairs -/

def pairText (p : Bytes × Bytes) : Bytes := p.1 ++ 61 :: p.2

def cookieText : List (Bytes × Bytes) → Bytes
  | [] => []
  | [p] => pairText p
  | p :: q :: ps => pairText p ++ 59 :: 32 :: cookieText (q :: ps)

/-- Names and values without a semicolon, names without an equals sign. -/
def WellFormed (pairs : List (Bytes × Bytes)) : Prop := ∀ p ∈ pairs, 59 ∉ p.1 ∧ 59 ∉ p.2 ∧ 61 ∉ p.1

def mentions (p : Bytes × Bytes) : Bool := (find tokenKey (pairText p)).isSome

def behindToken (p : Bytes × Bytes) : Bytes := (pairText p).drop ((find tokenKey (pairText p)).getD 0 + 6)

def tokens (pairs : List (Bytes × Bytes)) : List Bytes :=
  (pairs.filter fun p => decide (p.1 = bytes "token")).map Prod.snd

/-! ## Where the search ends up -/

theorem tokenOf_eq (cookie : Bytes) :
    tokenOf cookie = match find tokenKey cookie with
      | some pos => (cookie.drop (pos + 6)).takeWhile fun c => decide (c ≠ 59)
      | none => [] := by
  unfold tokenOf
  split
  · rename_i pos hpos
    simp only [findFrom, ← take_find_singleton, show bytes ";" = [59] from rfl]
    cases find [59] (cookie.drop (pos + 6)) with
    | none => rfl
    | some e => simp only [Option.map_some, Nat.add_sub_cancel]
  · rfl

theorem tokenOf_space (s : Bytes) : tokenOf (32 :: s) = tokenOf s := by
  rw [tokenOf_eq, tokenOf_eq, show tokenKey = 116 :: bytes "oken=" from rfl, find_cons_ne (by decide)]
  cases find (116 :: bytes "oken=") s with
  | none => rfl
  | some pos =>
    simp only [Option.map_some]
    rw [show pos + 1 + 6 = pos + 6 + 1 by omega, List.drop_succ_cons]

theorem tokenOf_of_none {cookie : Bytes} (h : find tokenKey cookie = none) : tokenOf cookie = [] := by
  rw [tokenOf_eq, h]

theorem find_tokenKey_part (a b : Bytes) :
    find tokenKey (a ++ 59 :: b) = (find tokenKey a).or ((find tokenKey b).map (· + (a.length + 1))) := by
  have hsep : (59 : UInt8) ∉ 116 :: bytes "oken=" := by decide
  exact find_append_sep hsep b a

theorem tokenOf_part {a : Bytes} (ha : 59 ∉ a) (b : Bytes) :
    tokenOf (a ++ 59 :: b) = if (find tokenKey a).isSome then tokenOf a else tokenOf b := by
  rw [tokenOf_eq, find_tokenKey_part]
  cases hf : find tokenKey a with
  | some pos =>
    have hle : pos + 6 ≤ a.length := find_add_le hf
    have hmem : (59 : UInt8) ∉ a.drop (pos + 6) := fun h => ha (List.mem_of_mem_drop h)
    rw [Option.isSome_some, if_pos rfl, tokenOf_eq, hf]
    simp only [Option.some_or]
    rw [List.drop_append_of_le_length hle, takeWhile_append_sep hmem, takeWhile_sep hmem]
  | none =>
    rw [if_neg (by simp), tokenOf_eq]
    cases find tokenKey b with
    | none => rfl
    | some pos =>
      simp only [Option.none_or, Option.map_some]
      rw [show pos + (a.length + 1) + 6 = a.length + (pos + 6 + 1) by omega, ← List.drop_drop, List.drop_left,
        List.drop_succ_cons]

theorem tokenOf_pairText {p : Bytes × Bytes} (hp : 59 ∉ pairText p) (hm : mentions p = true) :
    tokenOf (pairText p) = behindToken p := by
  obtain ⟨pos, hpos⟩ := Option.isSome_iff_exists.mp hm
  rw [tokenOf_eq, behindToken, hpos]
  exact takeWhile_sep fun h => hp (List.mem_of_mem_drop h)

theorem not_mem_pairText {p : Bytes × Bytes} (h1 : 59 ∉ p.1) (h2 : 59 ∉ p.2) : (59 : UInt8) ∉ pairText p := by
  simp [pairText, h1, h2]

theorem tokenOf_cookieText : ∀ {pairs : List (Bytes × Bytes)}, WellFormed pairs →
    tokenOf (cookieText pairs) = ((pairs.find? mentions).map behindToken).getD []
  | [], _ => rfl
  | [p], h => by
    obtain ⟨h1, h2, -⟩ := h p (by simp)
    rw [cookieText, List.find?_cons]
    cases hm : mentions p with
    | true => exact tokenOf_pairText (not_mem_pairText h1 h2) hm
    | false => exact tokenOf_of_none (by simpa [mentions] using hm)
  | p :: q :: ps, h => by
    obtain ⟨h1, h2, -⟩ := h p (by simp)
    have hrest : WellFormed (q :: ps) := fun r hr => h r (List.mem_cons_of_mem _ hr)
    have ih := tokenOf_cookieText hrest
    rw [cookieText, tokenOf_part (not_mem_pairText h1 h2), tokenOf_space, List.find?_cons]
    change (if mentions p = true then _ else _) = _
    cases hm : mentions p with
    | true =>
      rw [if_pos rfl]
      exact tokenOf_pairText (not_mem_pairText h1 h2) hm
    | false =>
      rw [if_neg (by decide)]
      exact ih

theorem mentions_token (value : Bytes) :
    mentions (bytes "token", value) = true ∧ behindToken (bytes "token", value) = value := by
  have hf : find tokenKey (pairText (bytes "token", value)) = some 0 := find_of_prefix ⟨value, rfl⟩
  rw [mentions, behindToken, hf]
  exact ⟨rfl, rfl⟩

/-! ## Who is authenticated -/

section
variable (secret : Bytes) (now : Int)

def userOf (token : Bytes) : Option AuthenticatedUser :=
  match jwt.verify token secret now with
  | .ok (some claims) => some { id := claims.id, username := claims.username }
  | _ => none

theorem extract_eq {request : HttpRequest} {cookie : Bytes} (h : request.headers.lookup (bytes "Cookie") = some cookie) :
    extractAuthenticatedUserFromRequest (some secret) now request = userOf secret now (tokenOf cookie) := by
  simp only [extractAuthenticatedUserFromRequest, h]
  split
  · rename_i hempty
    rw [hempty]
    rfl
  · rfl

variable (pairs : List (Bytes × Bytes))

/-- Who the cookies are for: the user of the only cookie named `token`, made by
`Create` for a validated name and not expired, or nobody without such a cookie. -/
inductive Expects : Option AuthenticatedUser → Prop where
  | user {id issued lifetime : Int} {username : Bytes} (hid : -2 ^ 31 ≤ id ∧ id ≤ 2 ^ 31 - 1)
      (hname : validation.validateUsername username = none)
      (hexp : -2 ^ 63 ≤ issued + lifetime ∧ issued + lifetime ≤ 2 ^ 63 - 1) (hnow : now ≤ issued + lifetime)
      (htokens : tokens pairs = [jwt.create id username secret issued lifetime]) : Expects (some { id, username })
  | nobody (htokens : tokens pairs = []) : Expects none

/-- The first pair that mentions `token=` is the cookie `token`, or what stands
behind that text there is for the same user. -/
def RightlyDecided (user : Option AuthenticatedUser) : Prop :=
  ∀ p, pairs.find? mentions = some p → p.1 = bytes "token" ∨ userOf secret now (behindToken p) = user

variable {secret now pairs}

theorem userOf_create {id issued lifetime : Int} {username : Bytes} (hid : -2 ^ 31 ≤ id ∧ id ≤ 2 ^ 31 - 1)
    (hname : validation.validateUsername username = none)
    (hexp : -2 ^ 63 ≤ issued + lifetime ∧ issued + lifetime ≤ 2 ^ 63 - 1) (hnow : now ≤ issued + lifetime) :
    userOf secret now (jwt.create id username secret issued lifetime) = some { id, username } := by
  have hv : jwt.verify (jwt.create id username secret issued lifetime) secret now =
      .ok (some { id, username, exp := issued + lifetime }) := by
    rw [jwt.verify_of_create, jwt.readClaims_payload (jwt.quote_not_mem_username hname) hid hexp,
      if_neg (Int.not_lt.mpr hnow)]
  rw [userOf, hv]

theorem mem_tokens {value : Bytes} : value ∈ tokens pairs ↔ (bytes "token", value) ∈ pairs := by
  simp only [tokens, List.mem_map, List.mem_filter, decide_eq_true_eq]
  constructor
  · intro ⟨p, ⟨hp, hn⟩, hv⟩
    rwa [← hn, ← hv]
  · intro h
    exact ⟨_, ⟨h, rfl⟩, rfl⟩

/-- **Cookie authentication.** The request is authenticated as its cookies say
exactly when the first mention of `token=` is the right one. -/
theorem extract_iff (hwf : WellFormed pairs) {user : Option AuthenticatedUser} (he : Expects secret now pairs user)
    {request : HttpRequest} (hreq : request.headers.lookup (bytes "Cookie") = some (cookieText pairs)) :
    extractAuthenticatedUserFromRequest (some secret) now request = user ↔ RightlyDecided secret now pairs user := by
  rw [extract_eq secret now hreq, tokenOf_cookieText hwf, RightlyDecided]
  cases hf : pairs.find? mentions with
  | none =>
    simp only [Option.map_none, Option.getD_none, reduceCtorEq, false_implies, implies_true, iff_true]
    cases he with
    | user hid hname hexp hnow htokens =>
      have hmem := mem_tokens.mp (htokens ▸ List.mem_singleton_self _)
      exact absurd (mentions_token _).1 (List.find?_eq_none.mp hf _ hmem)
    | nobody htokens => rfl
  | some p =>
    simp only [Option.map_some, Option.getD_some, Option.some.injEq, forall_eq']
    by_cases hp : p.1 = bytes "token"
    · -- the value of the cookie itself
      obtain ⟨name, value⟩ := p
      subst hp
      have hmem := mem_tokens.mpr (List.mem_of_find?_eq_some hf)
      rw [(mentions_token value).2]
      cases he with
      | user hid hname hexp hnow htokens =>
        rw [htokens, List.mem_singleton] at hmem
        rw [hmem, userOf_create hid hname hexp hnow]
        exact ⟨fun _ => Or.inl rfl, fun _ => rfl⟩
      | nobody htokens =>
        rw [htokens] at hmem
        cases hmem
    · exact ⟨Or.inr, fun h => h.resolve_left hp⟩

end

/-! ### A session cookie among others -/

set_option maxRecDepth 8192 in
theorem isNameChar_urlChar : ∀ n : Fin 64, validation.isNameChar (jwt.toUrlChar (base64Char n.val)) = true := by
  decide

theorem semicolon_not_mem (data : Bytes) : 59 ∉ jwt.base64UrlEncode data := by
  intro h
  obtain ⟨c, hc, he⟩ := List.mem_map.mp h
  obtain ⟨n, rfl⟩ := jwt.encodeGroups_chars data c hc
  have hn := isNameChar_urlChar ⟨n % 64, Nat.mod_lt _ (by decide)⟩
  rw [← jwt.base64Char_mod, he] at hn
  cases hn

theorem semicolon_not_mem_create (id issued lifetime : Int) (username secret : Bytes) :
    59 ∉ jwt.create id username secret issued lifetime := by
  simp [jwt.create, semicolon_not_mem, bytes]

def aliceToken : Bytes := jwt.create 7 (bytes "alice") (bytes "secret") 1000 86400

def withToken (name value : Bytes) : List (Bytes × Bytes) := [(name, value), (bytes "token", aliceToken)]

def cookieRequest (pairs : List (Bytes × Bytes)) : HttpRequest where
  method := .GET
  headers := AList.insert (bytes "Cookie") (cookieText pairs) ∅

theorem wellFormed_withToken {name value : Bytes} (hn : 59 ∉ name ∧ 59 ∉ value ∧ 61 ∉ name) :
    WellFormed (withToken name value) := by
  intro p hp
  simp only [withToken, List.mem_cons, List.not_mem_nil, or_false] at hp
  rcases hp with rfl | rfl
  · exact hn
  · exact ⟨by decide, semicolon_not_mem_create _ _ _ _ _, by decide⟩

theorem expects_withToken {name : Bytes} (value : Bytes) (hn : name ≠ bytes "token") :
    Expects (bytes "secret") 2000 (withToken name value) (some { id := 7, username := bytes "alice" }) := by
  have htokens : tokens (withToken name value) = [jwt.create 7 (bytes "alice") (bytes "secret") 1000 86400] := by
    simp only [tokens, withToken, List.filter_cons, hn]
    rfl
  refine .user ?_ ?_ ?_ ?_ htokens
  all_goals decide

theorem extract_theme :
    extractAuthenticatedUserFromRequest (some (bytes "secret")) 2000
      (cookieRequest (withToken (bytes "theme") (bytes "dark"))) = some { id := 7, username := bytes "alice" } := by
  refine (extract_iff (wellFormed_withToken (by decide)) (expects_withToken _ (by decide))
    (AList.lookup_insert _)).mpr ?_
  intro p hp
  cases Option.some.inj hp
  exact Or.inl rfl

/-- The name of another cookie ends in `token`. -/
theorem extract_xtoken :
    WellFormed (withToken (bytes "xtoken") (bytes "abc")) ∧
    Expects (bytes "secret") 2000 (withToken (bytes "xtoken") (bytes "abc")) (some { id := 7, username := bytes "alice" }) ∧
    extractAuthenticatedUserFromRequest (some (bytes "secret")) 2000
      (cookieRequest (withToken (bytes "xtoken") (bytes "abc"))) ≠ some { id := 7, username := bytes "alice" } := by
  have hwf : WellFormed (withToken (bytes "xtoken") (bytes "abc")) := wellFormed_withToken (by decide)
  refine ⟨hwf, expects_withToken _ (by decide), ?_⟩
  rw [extract_eq (bytes "secret") 2000 (AList.lookup_insert _), tokenOf_cookieText hwf]
  intro h
  cases h

end Ryklys
