import Ryklys.JsonWebToken
import Ryklys.Validation

/-!
# Token round trip

What `Verify` reads back from a token `Create` made. A username that passed
validation has no quote in it, so each key of the payload is found where it was
written, and the numbers behind `"id":` and `"exp":` end at a comma and a brace.
-/

namespace Ryklys

open Search

namespace jwt

/-! ## The parts of a token -/

section
variable {a b c : Bytes} (ha : 46 ∉ a) (hb : 46 ∉ b) (hc : 46 ∉ c)
include ha hb hc

theorem verify_parts (secret : Bytes) (now : Int) :
    verify (a ++ bytes "." ++ b ++ bytes "." ++ c) secret now =
      if c ≠ base64UrlEncode (crypto.hmacSha256 secret (a ++ bytes "." ++ b)) then .ok none
      else readClaims (base64UrlDecode b) now := by
  have hdot : bytes "." = [46] := rfl
  have htoken : a ++ bytes "." ++ b ++ bytes "." ++ c = a ++ 46 :: (b ++ 46 :: c) := by simp [hdot]
  have h1 : find [46] (a ++ 46 :: (b ++ 46 :: c)) = some a.length := find_singleton _ ha
  have hdrop : (a ++ 46 :: (b ++ 46 :: c)).drop (a.length + 1) = b ++ 46 :: c := drop_append_sep 46 a _
  have h2 : findFrom [46] (a ++ 46 :: (b ++ 46 :: c)) (a.length + 1) = some (b.length + (a.length + 1)) := by
    rw [findFrom, hdrop, find_singleton _ hb]
    rfl
  have hdrop' : (a ++ 46 :: (b ++ 46 :: c)).drop (b.length + (a.length + 1) + 1) = c := by
    rw [show b.length + (a.length + 1) + 1 = a.length + 1 + (b.length + 1) by omega, ← List.drop_drop, hdrop,
      drop_append_sep]
  have h3 : findFrom [46] (a ++ 46 :: (b ++ 46 :: c)) (b.length + (a.length + 1) + 1) = none := by
    rw [findFrom, hdrop', find_singleton_none hc]
    rfl
  have htake : (a ++ 46 :: (b ++ 46 :: c)).take (b.length + (a.length + 1)) = a ++ bytes "." ++ b := by
    rw [hdot, show a ++ 46 :: (b ++ 46 :: c) = (a ++ [46] ++ b) ++ 46 :: c by simp]
    exact List.take_left' (by simp; omega)
  have hpart : (b ++ 46 :: c).take (b.length + (a.length + 1) - a.length - 1) = b :=
    List.take_left' (by omega)
  rw [verify, htoken, hdot]
  simp only [h1, h2, h3, hdrop, hdrop', htake, hpart]
  simp [hdot]

end

/-! ## The keys of a payload -/

theorem quote_not_mem_ofInt (i : Int) : 34 ∉ Numeral.ofInt i := by
  have hn : ∀ n, 34 ∉ Numeral.ofNat n := fun n h => absurd (Numeral.isDigit_ofNat n 34 h) (by decide)
  cases i with
  | ofNat n => exact hn n
  | negSucc n => simpa [Numeral.ofInt] using hn (n + 1)

theorem find_idKey (s : Bytes) : find idKey (bytes "\x7b\"id\":" ++ s) = some 1 := by
  simp [idKey, bytes, find_cons]

theorem find_usernameKey_id (s : Bytes) :
    find usernameKey (bytes "\x7b\"id\":" ++ s) = (find usernameKey s).map (· + 6) := by
  simp [usernameKey, bytes, find_cons, Function.comp_def]

theorem find_usernameKey (s : Bytes) : find usernameKey (bytes ",\"username\":\"" ++ s) = some 1 := by
  simp [usernameKey, bytes, find_cons]

theorem find_expKey_id (s : Bytes) : find expKey (bytes "\x7b\"id\":" ++ s) = (find expKey s).map (· + 6) := by
  simp [expKey, bytes, find_cons, Function.comp_def]

/-- A username cannot make up the key: its closing quote is followed by a comma. -/
theorem expKey_misses {username s : Bytes} (hq : 34 ∉ username) :
    ¬ expKey <+: 34 :: (username ++ 34 :: 44 :: s) := by
  intro h
  have hk : expKey = 34 :: ([101, 120, 112] ++ 34 :: [58]) := rfl
  rw [hk, List.cons_prefix_cons] at h
  obtain ⟨t, ht⟩ := h.2
  have ht' : [101, 120, 112] ++ 34 :: (58 :: t) = username ++ 34 :: 44 :: s := by simpa using ht
  have hk3 : find [34] ([101, 120, 112] ++ 34 :: (58 :: t)) = some 3 := find_singleton _ (by decide)
  rw [ht', find_singleton _ hq, Option.some.injEq] at hk3
  obtain ⟨-, h2⟩ := List.append_inj ht' hk3.symm
  simp at h2

theorem find_expKey_username {username : Bytes} (hq : 34 ∉ username) (s : Bytes) :
    find expKey (bytes ",\"username\":\"" ++ (username ++ (bytes "\"" ++ (bytes ",\"exp\":" ++ s)))) =
      some (username.length + 15) := by
  have h1 : ∀ t, find expKey (bytes ",\"username\":\"" ++ t) = (find expKey (34 :: t)).map (· + 12) := fun t => by
    simp [expKey, bytes, find_cons, Function.comp_def]
  have h2 : ∀ t, bytes "\"" ++ (bytes ",\"exp\":" ++ t) = 34 :: 44 :: (expKey ++ t) := fun t => by
    simp [expKey, bytes]
  have h3 : find expKey (34 :: 44 :: (expKey ++ s)) = some 2 := by
    simp [expKey, bytes, find_cons]
  -- not at the quote before the name, not inside it, not at the quote behind it
  rw [h1, h2, find_cons, if_neg (expKey_misses hq), show expKey = 34 :: bytes "exp\":" from rfl,
    find_skip _ hq, ← show expKey = 34 :: bytes "exp\":" from rfl, h3]
  simp only [Option.map_some, Option.some.injEq]
  omega

theorem quote_not_mem_username {username : Bytes} (h : validation.validateUsername username = none) :
    34 ∉ username := fun hm => absurd (validation.nameChars_of_valid h 34 hm) (by decide)

theorem payloadJson_eq (id exp : Int) (username : Bytes) :
    payloadJson id username exp = bytes "\x7b\"id\":" ++ (Numeral.ofInt id ++ (bytes ",\"username\":\"" ++ (username ++
      (bytes "\"" ++ (bytes ",\"exp\":" ++ (Numeral.ofInt exp ++ bytes "\x7d")))))) := by
  simp only [payloadJson, List.append_assoc]

section
variable (id exp : Int) (username : Bytes)

theorem find_id_payload : find idKey (payloadJson id username exp) = some 1 ∧
    (payloadJson id username exp).drop (1 + 5) = Numeral.ofInt id ++ (bytes ",\"username\":\"" ++ (username ++
      (bytes "\"" ++ (bytes ",\"exp\":" ++ (Numeral.ofInt exp ++ bytes "\x7d"))))) := by
  rw [payloadJson_eq]
  exact ⟨find_idKey _, List.drop_left' (by decide)⟩

theorem find_username_payload :
    find usernameKey (payloadJson id username exp) = some ((Numeral.ofInt id).length + 7) ∧
    (payloadJson id username exp).drop ((Numeral.ofInt id).length + 7 + 12) = username ++
      (bytes "\"" ++ (bytes ",\"exp\":" ++ (Numeral.ofInt exp ++ bytes "\x7d"))) := by
  rw [payloadJson_eq]
  constructor
  · rw [find_usernameKey_id, show usernameKey = 34 :: bytes "username\":\"" from rfl,
      find_skip _ (quote_not_mem_ofInt id), ← show usernameKey = 34 :: bytes "username\":\"" from rfl, find_usernameKey]
    simp only [Option.map_some, Option.some.injEq]
    omega
  · rw [← List.append_assoc, ← List.append_assoc]
    refine List.drop_left' ?_
    have h1 : (bytes "\x7b\"id\":").length = 6 := by decide
    have h2 : (bytes ",\"username\":\"").length = 13 := by decide
    simp only [List.length_append, h1, h2]
    omega

theorem find_exp_payload (hq : 34 ∉ username) :
    find expKey (payloadJson id username exp) = some ((Numeral.ofInt id).length + username.length + 21) ∧
    (payloadJson id username exp).drop ((Numeral.ofInt id).length + username.length + 21 + 6) =
      Numeral.ofInt exp ++ bytes "\x7d" := by
  rw [payloadJson_eq]
  constructor
  · rw [find_expKey_id, show expKey = 34 :: bytes "exp\":" from rfl, find_skip _ (quote_not_mem_ofInt id),
      ← show expKey = 34 :: bytes "exp\":" from rfl, find_expKey_username hq]
    simp only [Option.map_some, Option.some.injEq]
    omega
  · rw [← List.append_assoc, ← List.append_assoc, ← List.append_assoc, ← List.append_assoc, ← List.append_assoc]
    refine List.drop_left' ?_
    have h1 : (bytes "\x7b\"id\":").length = 6 := by decide
    have h2 : (bytes ",\"username\":\"").length = 13 := by decide
    have h3 : (bytes "\"").length = 1 := by decide
    have h4 : (bytes ",\"exp\":").length = 7 := by decide
    simp only [List.length_append, h1, h2, h3, h4]
    omega

end

theorem readClaims_payload {id exp : Int} {username : Bytes} (hq : 34 ∉ username)
    (hid : -2 ^ 31 ≤ id ∧ id ≤ 2 ^ 31 - 1) (hexp : -2 ^ 63 ≤ exp ∧ exp ≤ 2 ^ 63 - 1)
    (now : Int) : readClaims (payloadJson id username exp) now =
      .ok (if exp < now then none else some { id, username, exp }) := by
  obtain ⟨hi, hid'⟩ := find_id_payload id exp username
  obtain ⟨hu, hu'⟩ := find_username_payload id exp username
  obtain ⟨he, he'⟩ := find_exp_payload id exp username hq
  have hstoi : stoi ((payloadJson id username exp).drop (1 + 5)) = .ok id := by
    rw [hid']
    exact stoInt_ofInt hid (by simp [bytes, Numeral.isDigit])
  have hstol : stol ((payloadJson id username exp).drop ((Numeral.ofInt id).length + username.length + 21 + 6)) =
      .ok exp := by
    rw [he']
    exact stoInt_ofInt hexp (by simp [bytes, Numeral.isDigit])
  have hquote : find (bytes "\"") (username ++ (bytes "\"" ++ (bytes ",\"exp\":" ++ (Numeral.ofInt exp ++ bytes "\x7d")))) =
      some username.length := find_singleton _ hq
  rw [readClaims, hi]
  simp only [hstoi]
  simp only [bind, Except.bind, hu, findFrom, hu', hquote, Option.map_some, he, hstol, Nat.add_sub_cancel, List.take_left]
  split <;> rfl

theorem verify_of_create (id issued lifetime : Int) (username secret : Bytes) (now : Int) :
    verify (create id username secret issued lifetime) secret now =
      readClaims (payloadJson id username (issued + lifetime)) now := by
  rw [create, verify_parts (dot_not_mem _) (dot_not_mem _) (dot_not_mem _), if_neg (by simp), base64UrlDecode_encode]

/-- **Token round trip.** `Verify` gives back what `Create` put into a token
until it expires, then nothing, and never throws. -/
theorem verify_create {id issued lifetime : Int} {username : Bytes} (hid : -2 ^ 31 ≤ id ∧ id ≤ 2 ^ 31 - 1)
    (hname : validation.validateUsername username = none)
    (hexp : -2 ^ 63 ≤ issued + lifetime ∧ issued + lifetime ≤ 2 ^ 63 - 1) (secret : Bytes) (now : Int) :
    verify (create id username secret issued lifetime) secret now =
      .ok (if now ≤ issued + lifetime then some { id, username, exp := issued + lifetime } else none) := by
  rw [verify_of_create, readClaims_payload (quote_not_mem_username hname) hid hexp]
  by_cases h : issued + lifetime < now
  · rw [if_pos h, if_neg (by omega)]
  · rw [if_neg h, if_pos (by omega)]

theorem verify_create_alice :
    verify (create (-7) (bytes "alice_exp") (bytes "secret") 1000 86400) (bytes "secret") 87400 =
      .ok (some { id := -7, username := bytes "alice_exp", exp := 87400 }) := by
  have h := @verify_create (-7) 1000 86400 (bytes "alice_exp") (by decide) (by decide) (by decide) (bytes "secret") 87400
  rwa [if_pos (by decide)] at h

end jwt

end Ryklys
