import Ryklys.CookieAuth
import Ryklys.Runs
import Ryklys.Server
import Ryklys.UserRoutes

/-!
# Accounts and their sessions

Over every interleaving of registrations and logins: the table keeps one row
for a name and only validated ones, a cookie is handed out for a row of the
table alone (`Inv`), and it authenticates as that row for its seven days.
-/

namespace Ryklys

open Search

namespace Accounts

def usernameOf (c : UserCall) : Option Bytes := c.request.bodyParams.lookup (bytes "username")

def emailOf (c : UserCall) : Option Bytes := c.request.bodyParams.lookup (bytes "email")

def passwordOf (c : UserCall) : Option Bytes := c.request.bodyParams.lookup (bytes "password")

/-- A registration whose fields passed validation. -/
structure Asks (c : UserCall) (username email pass : Bytes) : Prop where
  endpoint : c.endpoint = .register
  hasUsername : usernameOf c = some username
  hasEmail : emailOf c = some email
  hasPassword : passwordOf c = some pass
  validUsername : validation.validateUsername username = none
  validEmail : validation.validateEmail email = none
  validPassword : validation.validatePassword pass = none

/-- The row is one that such a registration makes. -/
structure MadeFor (crypt : password.CryptR) (row : User) (username email pass : Bytes) : Prop where
  hasUsername : row.username = username
  hasEmail : row.email = cStr email
  hasHash : ∃ draw hashed, password.hash crypt pass draw = .ok hashed ∧ row.passwordHash = hashed
  validUsername : validation.validateUsername username = none
  validEmail : validation.validateEmail email = none
  validPassword : validation.validatePassword pass = none

variable {ι : Type} {crypt : password.CryptR} {jwtSecret : Option Bytes}

/-- What an answer says about the table. -/
inductive Answered (crypt : password.CryptR) (jwtSecret : Option Bytes) (rows : List User) (c : UserCall) :
    HttpResponse → Prop where
  | refused {response : HttpResponse} (noCookie : response.headers.lookup setCookieKey = none)
      (error : response.IsError) : Answered crypt jwtSecret rows c response
  | registered {username email pass secret : Bytes} {row : User} (clock : Clock)
      (asks : Asks c username email pass) (mem : row ∈ rows) (made : MadeFor crypt row username email pass)
      (hsecret : jwtSecret = some secret) : Answered crypt jwtSecret rows c
        (grant (some secret) row clock (.created (bytes "User registered successfully")))
  | loggedIn {username pass secret : Bytes} {row : User} (clock : Clock) (endpoint : c.endpoint = .login)
      (hasUsername : usernameOf c = some username) (hasPassword : passwordOf c = some pass) (mem : row ∈ rows)
      (same : row.username = cStr username) (verified : password.verify crypt pass row.passwordHash = true)
      (hsecret : jwtSecret = some secret) : Answered crypt jwtSecret rows c
        (grant (some secret) row clock (.ok (bytes "Login successful")))

def CallInv (crypt : password.CryptR) (jwtSecret : Option Bytes) (rows : List User) (c : UserCall) : Prop :=
  match c.phase with
  | .checkingUsername username email pass | .checkingEmail username email pass => Asks c username email pass
  | .creating username email hashed =>
    ∃ pass draw, Asks c username email pass ∧ password.hash crypt pass draw = .ok hashed
  | .finding username pass => c.endpoint = .login ∧ usernameOf c = some username ∧ passwordOf c = some pass
  | .answered response => Answered crypt jwtSecret rows c response

/-- The call was answered with 201. -/
def Registered (c : UserCall) : Prop := ∃ response, c.phase = .answered response ∧ response.statusCode = 201

structure Inv (crypt : password.CryptR) (jwtSecret : Option Bytes) (s : Accounts ι) : Prop where
  table : s.users.Inv
  rows : ∀ row ∈ s.users.rows, ∃ t c username email pass, s.call t = some c ∧ Asks c username email pass ∧
    MadeFor crypt row username email pass
  calls : ∀ t c, s.call t = some c → CallInv crypt jwtSecret s.users.rows c
  distinct : ∀ t t' c c', s.call t = some c → s.call t' = some c' → Registered c → Registered c' →
    usernameOf c = usernameOf c' ∨ emailOf c = emailOf c' → t = t'

/-! ## Answers -/

theorem lookup_cookie (secret : Bytes) (row : User) (clock : Clock) (response : HttpResponse) :
    (grant (some secret) row clock response).headers.lookup setCookieKey =
      some (sessionCookie (jwt.create row.id row.username secret clock.now sessionSeconds)) :=
  AList.lookup_insert _

theorem Answered.mono {rows rows' : List User} {c : UserCall} {response : HttpResponse} (hsub : ∀ r ∈ rows, r ∈ rows')
    (h : Answered crypt jwtSecret rows c response) : Answered crypt jwtSecret rows' c response := by
  cases h with
  | refused noCookie error => exact .refused noCookie error
  | registered clock asks mem made hsecret => exact .registered clock asks (hsub _ mem) made hsecret
  | loggedIn clock endpoint hasUsername hasPassword mem same verified hsecret =>
    exact .loggedIn clock endpoint hasUsername hasPassword (hsub _ mem) same verified hsecret

theorem CallInv.mono {rows rows' : List User} {c : UserCall} (hsub : ∀ r ∈ rows, r ∈ rows')
    (h : CallInv crypt jwtSecret rows c) : CallInv crypt jwtSecret rows' c := by
  rw [CallInv] at h ⊢
  cases hp : c.phase with
  | answered response =>
    rw [hp] at h
    exact h.mono hsub
  | _ =>
    rw [hp] at h
    exact h

theorem answered_refused {rows : List User} {c : UserCall} (status : Int) (text body : Bytes) (h : 400 ≤ status) :
    Answered crypt jwtSecret rows c { statusCode := status, statusText := text, body := body } :=
  .refused rfl h

/-- A 201 is the answer to a registration whose row is in the table. -/
theorem CallInv.registered {rows : List User} {c : UserCall} (h : CallInv crypt jwtSecret rows c) (hr : Registered c) :
    ∃ username email pass row secret clock, Asks c username email pass ∧ row ∈ rows ∧
      MadeFor crypt row username email pass ∧ jwtSecret = some secret ∧
      c.phase = .answered (grant (some secret) row clock (.created (bytes "User registered successfully"))) := by
  obtain ⟨response, hp, hstatus⟩ := hr
  rw [CallInv, hp] at h
  cases h with
  | refused noCookie error =>
    rw [HttpResponse.IsError, hstatus] at error
    exact absurd error (by decide)
  | registered clock asks mem made hsecret => exact ⟨_, _, _, _, _, clock, asks, mem, made, hsecret, hp⟩
  | loggedIn clock endpoint hasUsername hasPassword mem same verified hsecret =>
    exact absurd (show (200 : Int) = 201 from hstatus) (by decide)

theorem cStr_of_valid {username : Bytes} (h : validation.validateUsername username = none) : cStr username = username :=
  cStr_of_not_mem fun hm => absurd (validation.nameChars_of_valid h 0 hm) (by decide)

theorem Asks.same {c c' : UserCall} {username email pass : Bytes} (h : Asks c username email pass)
    (hsame : c'.endpoint = c.endpoint ∧ c'.request = c.request) : Asks c' username email pass := by
  obtain ⟨hendpoint, hrequest⟩ := hsame
  refine ⟨hendpoint.trans h.endpoint, ?_, ?_, ?_, h.validUsername, h.validEmail, h.validPassword⟩
  · rw [usernameOf, hrequest]
    exact h.hasUsername
  · rw [emailOf, hrequest]
    exact h.hasEmail
  · rw [passwordOf, hrequest]
    exact h.hasPassword

theorem isError_of {response : HttpResponse} (status : Int) (h : response.statusCode = status) (hle : 400 ≤ status) :
    response.IsError := by
  rw [HttpResponse.IsError, h]
  exact hle

/-! ## Starting a handler -/

theorem registerStart_cases (request : HttpRequest) :
    (∃ body, registerStart request = .answered (.unprocessableEntity body)) ∨
      ∃ username email pass, registerStart request = .checkingUsername username email pass ∧
        ∀ phase, Asks ⟨.register, request, phase⟩ username email pass := by
  rw [registerStart]
  cases hu : request.bodyParams.lookup (bytes "username") with
  | none => exact .inl ⟨_, rfl⟩
  | some username =>
    cases he : request.bodyParams.lookup (bytes "email") with
    | none => exact .inl ⟨_, rfl⟩
    | some email =>
      cases hp : request.bodyParams.lookup (bytes "password") with
      | none => exact .inl ⟨_, rfl⟩
      | some pass =>
        dsimp only
        cases hvu : validation.validateUsername username with
        | some err => exact .inl ⟨_, rfl⟩
        | none =>
          dsimp only
          cases hve : validation.validateEmail email with
          | some err => exact .inl ⟨_, rfl⟩
          | none =>
            dsimp only
            cases hvp : validation.validatePassword pass with
            | some err => exact .inl ⟨_, rfl⟩
            | none => exact .inr ⟨username, email, pass, rfl, fun _ => ⟨rfl, hu, he, hp, hvu, hve, hvp⟩⟩

theorem start_inv (crypt : password.CryptR) (jwtSecret : Option Bytes) (rows : List User) (endpoint : UserEndpoint)
    (request : HttpRequest) :
    CallInv crypt jwtSecret rows ⟨endpoint, request, endpoint.start request⟩ ∧
      ¬ Registered ⟨endpoint, request, endpoint.start request⟩ := by
  have hrefused : ∀ (endpoint : UserEndpoint) (body : Bytes),
      CallInv crypt jwtSecret rows ⟨endpoint, request, .answered (.unprocessableEntity body)⟩ ∧
        ¬ Registered ⟨endpoint, request, .answered (.unprocessableEntity body)⟩ := by
    intro endpoint body
    refine ⟨answered_refused 422 _ body (by decide), ?_⟩
    rintro ⟨response, hp, hstatus⟩
    cases hp
    exact absurd (show (422 : Int) = 201 from hstatus) (by decide)
  have hgoing : ∀ c : UserCall, (∀ response, c.phase ≠ .answered response) → ¬ Registered c := by
    rintro c hc ⟨response, hp, -⟩
    exact hc response hp
  cases endpoint with
  | register =>
    rw [UserEndpoint.start]
    rcases registerStart_cases request with ⟨body, h⟩ | ⟨username, email, pass, h, hasks⟩
    · rw [h]
      exact hrefused .register body
    · rw [h]
      exact ⟨hasks _, hgoing _ fun response h => by cases h⟩
  | login =>
    rw [UserEndpoint.start, loginStart]
    cases hu : request.bodyParams.lookup (bytes "username") with
    | none => exact hrefused .login _
    | some username =>
      dsimp only
      cases hp : request.bodyParams.lookup (bytes "password") with
      | none => exact hrefused .login _
      | some pass => exact ⟨⟨rfl, hu, hp⟩, hgoing _ fun response h => by cases h⟩

/-! ## Queries -/

/-- What a query may do to the table, the call and the rest. -/
structure Moved (crypt : password.CryptR) (jwtSecret : Option Bytes) (users users' : UsersTable) (c c' : UserCall) :
    Prop where
  table : users'.Inv
  grows : users.rows <+: users'.rows
  rows : ∀ row ∈ users'.rows, row ∈ users.rows ∨
    ∃ username email pass, Asks c' username email pass ∧ MadeFor crypt row username email pass
  call : CallInv crypt jwtSecret users'.rows c'
  same : c'.endpoint = c.endpoint ∧ c'.request = c.request
  fresh : Registered c' → Registered c ∨
    ∃ username email, usernameOf c = some username ∧ emailOf c = some email ∧
      ∀ row ∈ users.rows, row.username ≠ username ∧ row.email ≠ cStr email

theorem moved_same {users : UsersTable} {c c' : UserCall} (h : users.Inv)
    (hc : CallInv crypt jwtSecret users.rows c') (hsame : c'.endpoint = c.endpoint ∧ c'.request = c.request)
    (hr : Registered c' → Registered c) : Moved crypt jwtSecret users users c c' :=
  ⟨h, List.prefix_refl _, fun _ hrow => .inl hrow, hc, hsame, fun h => .inl (hr h)⟩

/-- A refusal leaves the rows alone. -/
theorem moved_refused {users users' : UsersTable} {c c' : UserCall} {response : HttpResponse} (h : users'.Inv)
    (hrows : users'.rows = users.rows) (hp : c'.phase = .answered response)
    (hsame : c'.endpoint = c.endpoint ∧ c'.request = c.request)
    (hcookie : response.headers.lookup setCookieKey = none) (herr : response.IsError) :
    Moved crypt jwtSecret users users' c c' := by
  refine ⟨h, hrows ▸ List.prefix_refl _, fun row hrow => .inl (hrows ▸ hrow), ?_, hsame, ?_⟩
  · rw [CallInv, hp]
    exact .refused hcookie herr
  · rintro ⟨response', hp', hstatus⟩
    rw [hp] at hp'
    cases hp'
    rw [HttpResponse.IsError, hstatus] at herr
    exact absurd herr (by decide)

theorem hash_cStr {pass hashed : Bytes} {draw : Fin 22 → Fin 64} (h : password.hash crypt pass draw = .ok hashed) :
    cStr hashed = hashed := by
  rw [password.hash] at h
  split at h
  · cases h
    exact cStr_cStr _
  · cases h

theorem create_moved {users users' : UsersTable} {c : UserCall} {username email pass hashed : Bytes} {user : User}
    {draw : Fin 22 → Fin 64} (h : users.Inv) (hasks : Asks c username email pass)
    (hhash : password.hash crypt pass draw = .ok hashed)
    (hcreate : users.create username email hashed = (.ok user, users')) :
    users'.Inv ∧ users'.rows = users.rows ++ [user] ∧ MadeFor crypt user username email pass ∧
      ∀ row ∈ users.rows, row.username ≠ username ∧ row.email ≠ cStr email := by
  obtain ⟨huser, hrows, hnext, hle, hfree⟩ := UsersTable.create_ok hcreate
  have hinv := h.create username email hashed
  rw [hcreate] at hinv
  have hname := cStr_of_valid hasks.validUsername
  subst huser
  refine ⟨hinv, hrows, ⟨hname, rfl, ⟨draw, hashed, hhash, hash_cStr hhash⟩, hasks.validUsername, hasks.validEmail,
    hasks.validPassword⟩, ?_⟩
  intro row hrow
  obtain ⟨hu, he⟩ := hfree row hrow
  rw [hname] at hu
  exact ⟨hu, he⟩

theorem query_moved {users : UsersTable} {c : UserCall} (h : users.Inv) (hc : CallInv crypt jwtSecret users.rows c)
    (draw : Fin 22 → Fin 64) (clock : Clock) :
    Moved crypt jwtSecret users (query crypt jwtSecret users draw clock c.phase).1 c
      { c with phase := (query crypt jwtSecret users draw clock c.phase).2 } := by
  obtain ⟨endpoint, request, phase⟩ := c
  cases phase with
  | checkingUsername username email pass =>
    rw [query]
    split
    · exact moved_refused h rfl rfl ⟨rfl, rfl⟩ rfl (isError_of 409 rfl (by decide))
    · refine moved_same h (hc.same ⟨rfl, rfl⟩) ⟨rfl, rfl⟩ ?_
      rintro ⟨response, hr, -⟩
      cases hr
  | checkingEmail username email pass =>
    rw [query]
    split
    · exact moved_refused h rfl rfl ⟨rfl, rfl⟩ rfl (isError_of 409 rfl (by decide))
    · cases hh : password.hash crypt pass draw with
      | ok hashed =>
        refine moved_same h ⟨pass, draw, hc.same ⟨rfl, rfl⟩, hh⟩ ⟨rfl, rfl⟩ ?_
        rintro ⟨response, hr, -⟩
        cases hr
      | error e => exact moved_refused h rfl rfl ⟨rfl, rfl⟩ rfl (isError_of 500 rfl (by decide))
  | creating username email hashed =>
    obtain ⟨pass, hashDraw, hasks, hh⟩ := hc
    rw [query]
    cases hcreate : users.create username email hashed with
    | mk r users' =>
      cases r with
      | ok user =>
        obtain ⟨hinv, hrows, hmade, hfree⟩ := create_moved h hasks hh hcreate
        have hasks' : ∀ phase, Asks ⟨endpoint, request, phase⟩ username email pass := fun _ => hasks.same ⟨rfl, rfl⟩
        refine ⟨hinv, hrows ▸ List.prefix_append .., fun row hrow => ?_, ?_, ⟨rfl, rfl⟩, fun _ => .inr ?_⟩
        · rw [hrows] at hrow
          rcases List.mem_append.mp hrow with hrow | hrow
          · exact .inl hrow
          · rw [List.mem_singleton.mp hrow]
            exact .inr ⟨username, email, pass, hasks' _, hmade⟩
        · have hmem : user ∈ users'.rows := by
            rw [hrows]
            exact List.mem_append_right _ (List.mem_singleton_self user)
          rw [CallInv]
          cases hsecret : jwtSecret with
          | none => exact .refused rfl (isError_of 500 rfl (by decide))
          | some secret => exact .registered clock (hasks' _) hmem hmade rfl
        · exact ⟨username, email, hasks.hasUsername, hasks.hasEmail, hfree⟩
      | error e =>
        have hinv := h.create username email hashed
        rw [hcreate] at hinv
        have hrows := (UsersTable.create_error hcreate).1
        cases e with
        | uniqueViolation => exact moved_refused hinv hrows rfl ⟨rfl, rfl⟩ rfl (isError_of 409 rfl (by decide))
        | other => exact moved_refused hinv hrows rfl ⟨rfl, rfl⟩ rfl (isError_of 500 rfl (by decide))
  | finding username pass =>
    obtain ⟨hend, hu, hpass⟩ := hc
    rw [query]
    cases hf : users.findByUsername username with
    | none => exact moved_refused h rfl rfl ⟨rfl, rfl⟩ rfl (isError_of 401 rfl (by decide))
    | some user =>
      dsimp only
      split
      · rename_i hverify
        have hname : user.username = cStr username := by
          rw [UsersTable.findByUsername] at hf
          simpa using List.find?_some hf
        refine moved_same h ?_ ⟨rfl, rfl⟩ ?_
        · rw [CallInv]
          cases hsecret : jwtSecret with
          | none => exact .refused rfl (isError_of 500 rfl (by decide))
          | some secret => exact .loggedIn clock hend hu hpass (List.mem_of_find?_eq_some hf) hname hverify rfl
        · rintro ⟨response, hr, hstatus⟩
          cases hr
          cases hsecret : jwtSecret with
          | none =>
            rw [hsecret] at hstatus
            exact absurd (show (500 : Int) = 201 from hstatus) (by decide)
          | some secret =>
            rw [hsecret] at hstatus
            exact absurd (show (200 : Int) = 201 from hstatus) (by decide)
      · exact moved_refused h rfl rfl ⟨rfl, rfl⟩ rfl (isError_of 401 rfl (by decide))
  | answered response =>
    rw [query]
    refine moved_same h hc ⟨rfl, rfl⟩ ?_
    rintro ⟨response', hr, hstatus⟩
    cases hr
    exact ⟨response, rfl, hstatus⟩

theorem queryFails_moved {users : UsersTable} {c : UserCall} (h : users.Inv)
    (hc : CallInv crypt jwtSecret users.rows c) (committed : Bool) :
    Moved crypt jwtSecret users (queryFails users committed c.phase).1 c
      { c with phase := (queryFails users committed c.phase).2 } := by
  obtain ⟨endpoint, request, phase⟩ := c
  cases phase with
  | creating username email hashed =>
    obtain ⟨pass, draw, hasks, hh⟩ := hc
    rw [queryFails]
    cases committed with
    | false => exact moved_refused h rfl rfl ⟨rfl, rfl⟩ rfl (isError_of 500 rfl (by decide))
    | true =>
      cases hcreate : users.create username email hashed with
      | mk r users' =>
        cases r with
        | ok user =>
          obtain ⟨hinv, hrows, hmade, -⟩ := create_moved h hasks hh hcreate
          simp only [if_true]
          refine ⟨hinv, hrows ▸ List.prefix_append .., fun row hrow => ?_,
            .refused rfl (isError_of 500 rfl (by decide)), ⟨rfl, rfl⟩, ?_⟩
          · rw [hrows] at hrow
            rcases List.mem_append.mp hrow with hrow | hrow
            · exact .inl hrow
            · rw [List.mem_singleton.mp hrow]
              exact .inr ⟨username, email, pass, hasks.same ⟨rfl, rfl⟩, hmade⟩
          · rintro ⟨response, hr, hstatus⟩
            cases hr
            exact absurd (show (500 : Int) = 201 from hstatus) (by decide)
        | error e =>
          have hinv := h.create username email hashed
          rw [hcreate] at hinv
          exact moved_refused hinv (UsersTable.create_error hcreate).1 rfl ⟨rfl, rfl⟩ rfl
            (isError_of 500 rfl (by decide))
  | answered response =>
    refine moved_same h hc ⟨rfl, rfl⟩ ?_
    rintro ⟨response', hr, hstatus⟩
    cases hr
    exact ⟨response, rfl, hstatus⟩
  | _ => exact moved_refused h rfl rfl ⟨rfl, rfl⟩ rfl (isError_of 500 rfl (by decide))

/-! ## Runs -/

variable {s : Accounts ι}

theorem inv_start : Inv crypt jwtSecret ({} : Accounts ι) := by
  refine ⟨UsersTable.inv_empty, ?_, ?_, ?_⟩
  · intro row hrow
    cases hrow
  · intro t c hc
    cases hc
  · intro t t' c c' hc
    cases hc

variable [DecidableEq ι]

theorem Inv.put (h : Inv crypt jwtSecret s) {t : ι} {c c' : UserCall} {users' : UsersTable} (hc : s.call t = some c)
    (m : Moved crypt jwtSecret s.users users' c c') :
    Inv crypt jwtSecret ⟨users', Function.update s.call t (some c')⟩ := by
  have hname : usernameOf c' = usernameOf c ∧ emailOf c' = emailOf c := by
    rw [usernameOf, usernameOf, emailOf, emailOf, m.same.2]
    exact ⟨rfl, rfl⟩
  have hcall : ∀ {u : ι} {d : UserCall}, Function.update s.call t (some c') u = some d →
      u = t ∧ d = c' ∨ u ≠ t ∧ s.call u = some d := by
    intro u d hd
    by_cases hu : u = t
    · subst hu
      rw [Function.update_self] at hd
      exact .inl ⟨rfl, (Option.some.inj hd).symm⟩
    · rw [Function.update_of_ne hu] at hd
      exact .inr ⟨hu, hd⟩
  -- whoever was answered 201 before has a row, and a new row is for another name
  have hother : ∀ {u : ι} {d : UserCall}, u ≠ t → s.call u = some d → Registered d → Registered c' →
      ¬ (usernameOf d = usernameOf c' ∨ emailOf d = emailOf c') := by
    intro u d hu hd hrd hrc hclash
    rw [hname.1, hname.2] at hclash
    rcases m.fresh hrc with hold | ⟨username, email, hun, hem, hfree⟩
    · exact hu (h.distinct u t d c hd hc hrd hold hclash)
    · obtain ⟨username', email', pass, row, secret, clock, hasks, hmem, hmade, -⟩ := (h.calls u d hd).registered hrd
      obtain ⟨hne, hne'⟩ := hfree row hmem
      rw [hun, hem, hasks.hasUsername, hasks.hasEmail] at hclash
      rcases hclash with he | he
      · exact hne (hmade.hasUsername.trans (Option.some.inj he))
      · exact hne' (hmade.hasEmail.trans (congrArg cStr (Option.some.inj he)))
  refine ⟨m.table, ?_, ?_, ?_⟩
  · intro row hrow
    rcases m.rows row hrow with hrow | ⟨username, email, pass, hasks, hmade⟩
    · obtain ⟨u, d, username, email, pass, hd, hasks, hmade⟩ := h.rows row hrow
      by_cases hu : u = t
      · rw [hu, hc, Option.some.injEq] at hd
        rw [← hd] at hasks
        exact ⟨t, c', username, email, pass, Function.update_self .., hasks.same m.same, hmade⟩
      · exact ⟨u, d, username, email, pass, (Function.update_of_ne hu ..).trans hd, hasks, hmade⟩
    · exact ⟨t, c', username, email, pass, Function.update_self .., hasks, hmade⟩
  · intro u d hd
    rcases hcall hd with ⟨-, rfl⟩ | ⟨-, hd⟩
    · exact m.call
    · exact (h.calls u d hd).mono fun r hr => m.grows.subset hr
  · intro u u' d d' hd hd' hr hr' hclash
    rcases hcall hd with ⟨hu, rfl⟩ | ⟨hu, hdold⟩
    · rcases hcall hd' with ⟨hu', -⟩ | ⟨hu', hdold'⟩
      · rw [hu, hu']
      · exact absurd (hclash.imp Eq.symm Eq.symm) (hother hu' hdold' hr' hr)
    · rcases hcall hd' with ⟨-, rfl⟩ | ⟨-, hdold'⟩
      · exact absurd hclash (hother hu hdold hr hr')
      · exact h.distinct u u' d d' hdold hdold' hr hr' hclash

theorem Inv.arrives (h : Inv crypt jwtSecret s) {t : ι} (hfree : s.call t = none) (endpoint : UserEndpoint)
    (request : HttpRequest) :
    Inv crypt jwtSecret
      { s with call := Function.update s.call t (some ⟨endpoint, request, endpoint.start request⟩) } := by
  have hcall : ∀ {u : ι} {d : UserCall},
      Function.update s.call t (some ⟨endpoint, request, endpoint.start request⟩) u = some d →
      d = ⟨endpoint, request, endpoint.start request⟩ ∨ s.call u = some d := by
    intro u d hd
    by_cases hu : u = t
    · subst hu
      rw [Function.update_self] at hd
      exact .inl (Option.some.inj hd).symm
    · rw [Function.update_of_ne hu] at hd
      exact .inr hd
  refine ⟨h.table, ?_, ?_, ?_⟩
  · intro row hrow
    obtain ⟨u, d, username, email, pass, hd, hasks, hmade⟩ := h.rows row hrow
    have hne : u ≠ t := by
      intro he
      rw [he, hfree] at hd
      cases hd
    exact ⟨u, d, username, email, pass, (Function.update_of_ne hne ..).trans hd, hasks, hmade⟩
  · intro u d hd
    rcases hcall hd with rfl | hdold
    · exact (start_inv crypt jwtSecret s.users.rows endpoint request).1
    · exact h.calls u d hdold
  · intro u u' d d' hd hd' hr hr' hclash
    have hold : ∀ {u : ι} {d : UserCall},
        Function.update s.call t (some ⟨endpoint, request, endpoint.start request⟩) u = some d → Registered d →
        s.call u = some d := by
      intro u d hd hr
      rcases hcall hd with rfl | hdold
      · exact absurd hr (start_inv crypt jwtSecret s.users.rows endpoint request).2
      · exact hdold
    exact h.distinct u u' d d' (hold hd hr) (hold hd' hr') hr hr' hclash

theorem Inv.step (h : Inv crypt jwtSecret s) (op : Op ι) : Inv crypt jwtSecret (step crypt jwtSecret s op) := by
  cases op with
  | arrives t endpoint request =>
    rw [Accounts.step]
    cases hc : s.call t with
    | none => exact h.arrives hc endpoint request
    | some c => exact h
  | query t draw clock =>
    rw [Accounts.step]
    cases hc : s.call t with
    | none => exact h
    | some c => exact h.put hc (query_moved h.table (h.calls t c hc) draw clock)
  | fails t committed =>
    rw [Accounts.step]
    cases hc : s.call t with
    | none => exact h
    | some c => exact h.put hc (queryFails_moved h.table (h.calls t c hc) committed)

/-- The accounts after some steps of any number of requests, in any order. -/
def after (crypt : password.CryptR) (jwtSecret : Option Bytes) (ops : List (Op ι)) : Accounts ι :=
  Runs.run (step crypt jwtSecret) {} ops

theorem inv_after (ops : List (Op ι)) : Inv crypt jwtSecret (after crypt jwtSecret ops) :=
  Runs.invariant (step crypt jwtSecret) (fun _ op h => h.step op) ops inv_start

theorem Inv.grows (h : Inv crypt jwtSecret s) (op : Op ι) :
    s.users.rows <+: (Accounts.step crypt jwtSecret s op).users.rows := by
  cases op with
  | arrives t endpoint request =>
    rw [Accounts.step]
    split <;> exact List.prefix_refl _
  | query t draw clock =>
    rw [Accounts.step]
    cases hc : s.call t with
    | none => exact List.prefix_refl _
    | some c => exact (query_moved h.table (h.calls t c hc) draw clock).grows
  | fails t committed =>
    rw [Accounts.step]
    cases hc : s.call t with
    | none => exact List.prefix_refl _
    | some c => exact (queryFails_moved h.table (h.calls t c hc) committed).grows

theorem rows_grow (ops more : List (Op ι)) :
    (after crypt jwtSecret ops).users.rows <+: (after crypt jwtSecret (ops ++ more)).users.rows := by
  have hsnoc : after crypt jwtSecret (ops ++ more) = Runs.run (step crypt jwtSecret) (after crypt jwtSecret ops) more :=
    Runs.run_append ..
  have hstep : ∀ (s : Accounts ι) (op : Op ι),
      Inv crypt jwtSecret s ∧ (after crypt jwtSecret ops).users.rows <+: s.users.rows →
      Inv crypt jwtSecret (Accounts.step crypt jwtSecret s op) ∧
        (after crypt jwtSecret ops).users.rows <+: (Accounts.step crypt jwtSecret s op).users.rows :=
    fun s op hs => ⟨hs.1.step op, hs.2.trans (hs.1.grows op)⟩
  rw [hsnoc]
  exact (Runs.invariant (step crypt jwtSecret) hstep more ⟨inv_after ops, List.prefix_refl _⟩).2

/-! ## The table -/

/-- What the table and the answers always are. -/
structure Sound (crypt : password.CryptR) (s : Accounts ι) : Prop where
  usernames : (s.users.rows.map User.username).Nodup
  emails : (s.users.rows.map User.email).Nodup
  ids : (s.users.rows.map User.id).Pairwise (· < ·)
  made : ∀ row ∈ s.users.rows, 1 ≤ row.id ∧ row.id ≤ 2 ^ 31 - 1 ∧
    ∃ t c username email pass, s.call t = some c ∧ Asks c username email pass ∧
      MadeFor crypt row username email pass
  answered : ∀ t c, s.call t = some c → Registered c → ∃ row ∈ s.users.rows, ∃ username email pass,
    Asks c username email pass ∧ MadeFor crypt row username email pass
  once : ∀ t t' c c', s.call t = some c → s.call t' = some c' → Registered c → Registered c' →
    usernameOf c = usernameOf c' ∨ emailOf c = emailOf c' → t = t'

/-- In every interleaving a name and an address have one row, made for one of the
registration requests, a valid one; of the requests for one of them at most one is answered
with 201, with its row in the table, and no row ever changes or goes. -/
theorem accounts_sound (crypt : password.CryptR) (jwtSecret : Option Bytes) (ops more : List (Op ι)) :
    Sound crypt (after crypt jwtSecret ops) ∧
      (after crypt jwtSecret ops).users.rows <+: (after crypt jwtSecret (ops ++ more)).users.rows := by
  have h : Inv crypt jwtSecret (after crypt jwtSecret ops) := inv_after ops
  refine ⟨⟨h.table.usernames, h.table.emails, h.table.ascending, ?_, ?_, h.distinct⟩, rows_grow ops more⟩
  · intro row hrow
    obtain ⟨hlo, -, hhi⟩ := h.table.ids row hrow
    exact ⟨hlo, hhi, h.rows row hrow⟩
  · intro t c hc hr
    obtain ⟨username, email, pass, row, secret, clock, hasks, hmem, hmade, -⟩ := (h.calls t c hc).registered hr
    exact ⟨row, hmem, username, email, pass, hasks, hmade⟩

/-! ## Sessions -/

theorem userOf_session (secret : Bytes) (now : Int) {row : User} (hid : 1 ≤ row.id ∧ row.id ≤ 2 ^ 31 - 1)
    (hname : validation.validateUsername row.username = none) (clock : Clock) :
    userOf secret now (jwt.create row.id row.username secret clock.now sessionSeconds) =
      if now ≤ clock.now + sessionSeconds then some { id := row.id, username := row.username } else none := by
  have hb := clock.bounded
  have hv := jwt.verify_of_create row.id clock.now sessionSeconds row.username secret now
  rw [jwt.readClaims_payload (jwt.quote_not_mem_username hname) (by omega) (by rw [sessionSeconds]; omega)] at hv
  rw [userOf, hv]
  by_cases h : now ≤ clock.now + sessionSeconds
  · rw [if_pos h, if_neg (Int.not_lt.mpr h)]
  · rw [if_neg h, if_pos (Int.not_le.mp h)]

/-- What a browser keeps of a `Set-Cookie` header and sends back, up to the first semicolon. -/
def cookiePair (setCookie : Bytes) : Bytes := setCookie.takeWhile fun c => decide (c ≠ 59)

theorem cookiePair_session {token : Bytes} (h : 59 ∉ token) : cookiePair (sessionCookie token) = tokenKey ++ token := by
  have hsplit : sessionCookie token = (tokenKey ++ token) ++ 59 ::
      (bytes " HttpOnly; Secure; SameSite=None; Path=/; Max-Age=" ++ Numeral.ofInt sessionSeconds) := by
    rw [sessionCookie, List.append_assoc, List.append_assoc, List.append_assoc]
    rfl
  have hmem : 59 ∉ tokenKey ++ token := by
    rw [List.mem_append]
    rintro (hk | ht)
    · exact absurd hk (by decide)
    · exact h ht
  rw [cookiePair, hsplit]
  exact takeWhile_append_sep hmem _

theorem behindToken_session {p : Bytes × Bytes} {token : Bytes} (h : pairText p = tokenKey ++ token) :
    behindToken p = token := by
  have hf : find tokenKey (tokenKey ++ token) = some 0 := find_of_prefix ⟨token, rfl⟩
  rw [behindToken, h, hf]
  rfl

/-- The node of `/api/users/me` on a server that authenticates by cookie. -/
def meNode (jwtSecret : Option Bytes) (now : Int) (request : HttpRequest) : Except Exn HttpResponse :=
  PathTreeNode.handleRequest (some fun r => .ok (extractAuthenticatedUserFromRequest jwtSecret now r))
    ⟨0, .GET, .authenticated (some fun r authUser => .ok (me r authUser))⟩ request

/-- The step of the run that gave the call its answer. -/
def AnsweredBy (crypt : password.CryptR) (jwtSecret : Option Bytes) (ops : List (Op ι)) (t : ι) (c : UserCall)
    (clock : Clock) : Prop :=
  ∃ pre draw c₀, pre ++ [.query t draw clock] <+: ops ∧ (after crypt jwtSecret pre).call t = some c₀ ∧
    (∀ response, c₀.phase ≠ .answered response) ∧
    (after crypt jwtSecret (pre ++ [.query t draw clock])).call t = some c

/-- The cookie is for a row with the name of the call, whose password was
checked if it was a login. -/
def SessionOf (crypt : password.CryptR) (jwtSecret : Option Bytes) (rows : List User) (c : UserCall) (clock : Clock)
    (cookie : Bytes) : Prop :=
  ∃ row ∈ rows, ∃ secret pass, jwtSecret = some secret ∧ (usernameOf c).map cStr = some row.username ∧
    passwordOf c = some pass ∧ (c.endpoint = .login → password.verify crypt pass row.passwordHash = true) ∧
      cookie = sessionCookie (jwt.create row.id row.username secret clock.now sessionSeconds)

theorem SessionOf.mono {rows rows' : List User} {c : UserCall} {clock : Clock} {cookie : Bytes}
    (hsub : ∀ r ∈ rows, r ∈ rows') (h : SessionOf crypt jwtSecret rows c clock cookie) :
    SessionOf crypt jwtSecret rows' c clock cookie := by
  obtain ⟨row, hrow, hrest⟩ := h
  exact ⟨row, hsub row hrow, hrest⟩

theorem start_noCookie {endpoint : UserEndpoint} {request : HttpRequest} {response : HttpResponse}
    (h : endpoint.start request = .answered response) : response.headers.lookup setCookieKey = none := by
  cases endpoint with
  | register =>
    rw [UserEndpoint.start] at h
    rcases registerStart_cases request with ⟨body, he⟩ | ⟨username, email, pass, he, -⟩
    · rw [he] at h
      cases h
      rfl
    · rw [he] at h
      cases h
  | login =>
    rw [UserEndpoint.start, loginStart] at h
    split at h
    · cases h
      rfl
    · split at h
      · cases h
        rfl
      · cases h

theorem grant_cookie {user : User} {clock : Clock} {base : HttpResponse} {cookie : Bytes}
    (h : (grant jwtSecret user clock base).headers.lookup setCookieKey = some cookie) :
    ∃ secret, jwtSecret = some secret ∧
      cookie = sessionCookie (jwt.create user.id user.username secret clock.now sessionSeconds) := by
  cases hsecret : jwtSecret with
  | none =>
    rw [hsecret] at h
    cases h
  | some secret =>
    rw [hsecret, lookup_cookie] at h
    exact ⟨secret, rfl, (Option.some.inj h).symm⟩

/-- The query that answers with a cookie answers with one of its own clock. -/
theorem query_session {users : UsersTable} {c : UserCall} (h : users.Inv) (hc : CallInv crypt jwtSecret users.rows c)
    (hgoing : ∀ response, c.phase ≠ .answered response) {draw : Fin 22 → Fin 64} {clock : Clock}
    {response : HttpResponse} {cookie : Bytes}
    (hphase : (query crypt jwtSecret users draw clock c.phase).2 = .answered response)
    (hcookie : response.headers.lookup setCookieKey = some cookie) :
    SessionOf crypt jwtSecret (query crypt jwtSecret users draw clock c.phase).1.rows c clock cookie := by
  obtain ⟨endpoint, request, phase⟩ := c
  cases phase with
  | checkingUsername username email pass =>
    rw [query] at hphase
    split at hphase
    · cases hphase
      cases hcookie
    · cases hphase
  | checkingEmail username email pass =>
    rw [query] at hphase
    split at hphase
    · cases hphase
      cases hcookie
    · split at hphase
      · cases hphase
      · cases hphase
        cases hcookie
  | creating username email hashed =>
    obtain ⟨pass, hashDraw, hasks, hh⟩ := hc
    rw [query] at hphase ⊢
    cases hcreate : users.create username email hashed with
    | mk r users' =>
      rw [hcreate] at hphase
      cases r with
      | ok user =>
        obtain ⟨-, hrows, hmade, -⟩ := create_moved h hasks hh hcreate
        cases hphase
        obtain ⟨secret, hsecret, hvalue⟩ := grant_cookie hcookie
        refine ⟨user, ?_, secret, pass, hsecret, ?_, hasks.hasPassword, fun he => ?_, hvalue⟩
        · dsimp only
          rw [hrows]
          exact List.mem_append_right _ (List.mem_singleton_self user)
        · rw [hasks.hasUsername, Option.map_some, cStr_of_valid hasks.validUsername, hmade.hasUsername]
        · cases hasks.endpoint.symm.trans he
      | error e =>
        cases e with
        | uniqueViolation =>
          cases hphase
          cases hcookie
        | other =>
          cases hphase
          cases hcookie
  | finding username pass =>
    obtain ⟨-, hu, hpass⟩ := hc
    rw [query] at hphase ⊢
    cases hf : users.findByUsername username with
    | none =>
      rw [hf] at hphase
      cases hphase
      cases hcookie
    | some user =>
      rw [hf] at hphase
      dsimp only at hphase ⊢
      split at hphase
      · rename_i hverify
        cases hphase
        obtain ⟨secret, hsecret, hvalue⟩ := grant_cookie hcookie
        have hname : user.username = cStr username := by
          rw [UsersTable.findByUsername] at hf
          simpa using List.find?_some hf
        refine ⟨user, ?_, secret, pass, hsecret, ?_, hpass, fun _ => hverify, hvalue⟩
        · rw [if_pos hverify]
          exact List.mem_of_find?_eq_some hf
        · rw [hu, Option.map_some, hname]
      · cases hphase
        cases hcookie
  | answered response => exact absurd rfl (hgoing response)

theorem AnsweredBy.snoc {ops : List (Op ι)} {t : ι} {c : UserCall} {clock : Clock} (o : Op ι)
    (h : AnsweredBy crypt jwtSecret ops t c clock) : AnsweredBy crypt jwtSecret (ops ++ [o]) t c clock := by
  obtain ⟨pre, draw, c₀, hpre, hrest⟩ := h
  exact ⟨pre, draw, c₀, hpre.trans (List.prefix_append _ _), hrest⟩

/-- Every cookie comes from the step that answered its call. -/
theorem session_issued (ops : List (Op ι)) {t : ι} {c : UserCall} {response : HttpResponse} {cookie : Bytes}
    (hc : (after crypt jwtSecret ops).call t = some c) (hphase : c.phase = .answered response)
    (hcookie : response.headers.lookup setCookieKey = some cookie) :
    ∃ clock, AnsweredBy crypt jwtSecret ops t c clock ∧
      SessionOf crypt jwtSecret (after crypt jwtSecret ops).users.rows c clock cookie := by
  induction ops using List.reverseRecOn with
  | nil => cases hc
  | append_singleton ops o ih =>
    have hinv : Inv crypt jwtSecret (after crypt jwtSecret ops) := inv_after ops
    have hsnoc : after crypt jwtSecret (ops ++ [o]) = step crypt jwtSecret (after crypt jwtSecret ops) o :=
      Runs.run_snoc ..
    -- a call that the step leaves alone has its answer from before
    have hold : (after crypt jwtSecret ops).call t = some c →
        ∃ clock, AnsweredBy crypt jwtSecret (ops ++ [o]) t c clock ∧
          SessionOf crypt jwtSecret (after crypt jwtSecret (ops ++ [o])).users.rows c clock cookie := by
      intro hc'
      obtain ⟨clock, hby, hsession⟩ := ih hc'
      exact ⟨clock, hby.snoc o, hsession.mono fun r hr => (rows_grow ops [o]).subset hr⟩
    have hstep := hc
    rw [hsnoc] at hstep
    cases o with
    | arrives u endpoint request =>
      rw [step] at hstep
      split at hstep
      · dsimp only at hstep
        by_cases hu : t = u
        · rw [hu, Function.update_self, Option.some.injEq] at hstep
          rw [← hstep] at hphase
          rw [start_noCookie hphase] at hcookie
          cases hcookie
        · rw [Function.update_of_ne hu] at hstep
          exact hold hstep
      · exact hold hstep
    | query u draw clock =>
      rw [step] at hstep
      split at hstep
      · exact hold hstep
      · rename_i c₀ hc₀
        dsimp only at hstep
        by_cases hu : t = u
        · subst hu
          rw [Function.update_self, Option.some.injEq] at hstep
          by_cases hdone : ∃ r, c₀.phase = .answered r
          · obtain ⟨r, hr⟩ := hdone
            have hsame : c = c₀ := by rw [← hstep, hr, query, ← hr]
            exact hold (hsame ▸ hc₀)
          · have hgoing : ∀ r, c₀.phase ≠ .answered r := fun r hr => hdone ⟨r, hr⟩
            rw [← hstep] at hphase
            have hsession := query_session hinv.table (hinv.calls t c₀ hc₀) hgoing hphase hcookie
            refine ⟨clock, ⟨ops, draw, c₀, List.prefix_refl _, hc₀, hgoing, hc⟩, ?_⟩
            rw [hsnoc, step, hc₀, ← hstep]
            exact hsession
        · rw [Function.update_of_ne hu] at hstep
          exact hold hstep
    | fails u committed =>
      rw [step] at hstep
      split at hstep
      · exact hold hstep
      · rename_i c₀ hc₀
        dsimp only at hstep
        by_cases hu : t = u
        · subst hu
          rw [Function.update_self, Option.some.injEq] at hstep
          cases hp : c₀.phase with
          | answered r =>
            have hsame : c = c₀ := by rw [← hstep, hp, queryFails, ← hp]
            exact hold (hsame ▸ hc₀)
          | creating _ _ _ | checkingUsername _ _ _ | checkingEmail _ _ _ | finding _ _ =>
            rw [← hstep, hp] at hphase
            cases hphase
            cases hcookie
        · rw [Function.update_of_ne hu] at hstep
          exact hold hstep

/-- A cookie that any answer has handed out stands for the one row with the
name that the call gave, with the password checked if it was a login. Sent
back, before any other cookie that mentions `token=`, it gives `/api/users/me`
that row's user for seven days from the clock of the step that answered, and is
refused after them. -/
theorem session_authenticates (crypt : password.CryptR) (jwtSecret : Option Bytes) (ops : List (Op ι)) {t : ι}
    {c : UserCall} {response : HttpResponse} {cookie : Bytes} {pairs : List (Bytes × Bytes)} {p : Bytes × Bytes}
    {request : HttpRequest} (hc : (after crypt jwtSecret ops).call t = some c) (hphase : c.phase = .answered response)
    (hcookie : response.headers.lookup setCookieKey = some cookie) (hwf : WellFormed pairs)
    (hfirst : pairs.find? mentions = some p) (hpair : pairText p = cookiePair cookie)
    (hreq : request.headers.lookup (bytes "Cookie") = some (cookieText pairs)) :
    ∃ row ∈ (after crypt jwtSecret ops).users.rows, ∃ clock pass, AnsweredBy crypt jwtSecret ops t c clock ∧
      (usernameOf c).map cStr = some row.username ∧ passwordOf c = some pass ∧
        (c.endpoint = .login → password.verify crypt pass row.passwordHash = true) ∧
          ∀ now, meNode jwtSecret now request = .ok (if now ≤ clock.now + sessionSeconds
            then me request { id := row.id, username := row.username }
            else .unauthorized (bytes "Invalid or missing token")) := by
  have h : Inv crypt jwtSecret (after crypt jwtSecret ops) := inv_after ops
  obtain ⟨clock, hby, row, hmem, secret, pass, hsecret, hname, hpass, hlogin, rfl⟩ :=
    session_issued ops hc hphase hcookie
  obtain ⟨hlo, -, hhi⟩ := h.table.ids row hmem
  obtain ⟨-, -, username, email, pass', -, -, hmade⟩ := h.rows row hmem
  have hvalid : validation.validateUsername row.username = none := by
    rw [hmade.hasUsername]
    exact hmade.validUsername
  refine ⟨row, hmem, clock, pass, hby, hname, hpass, hlogin, fun now => ?_⟩
  rw [cookiePair_session (semicolon_not_mem_create _ _ _ _ _)] at hpair
  have huser := extract_eq secret now hreq
  rw [tokenOf_cookieText hwf, hfirst, Option.map_some, Option.getD_some, behindToken_session hpair,
    userOf_session secret now ⟨hlo, hhi⟩ hvalid clock] at huser
  rw [meNode, PathTreeNode.handleRequest, hsecret]
  dsimp only
  rw [huser]
  by_cases hnow : now ≤ clock.now + sessionSeconds
  · rw [if_pos hnow, if_pos hnow]
    rfl
  · rw [if_neg hnow, if_neg hnow]
    rfl

/-! ### A registration -/

def aliceSalt : Bytes := bytes "$2b$12$abcdefghijklmnopqrstuu"

def aliceHash : Bytes := aliceSalt ++ bytes "hfzFpBaIOD3.x/mq5zbKsj8UgXq8SK."

def aliceDraw : Fin 22 → Fin 64 := fun i => ⟨28 + min i.val 20, by omega⟩

/-- `crypt_r` on one password and one salt. -/
def aliceCrypt : password.CryptR := fun phrase setting =>
  if phrase = bytes "Secret123" ∧ setting.take 29 = aliceSalt then some aliceHash else none

def aliceRequest : HttpRequest where
  method := .POST
  bodyParams := ((AList.singleton (bytes "username") (bytes "alice")).insert (bytes "email")
    (bytes "alice@example.com")).insert (bytes "password") (bytes "Secret123")

def aliceClock : Clock := ⟨1000, by decide⟩

def aliceOps : List (Op Nat) :=
  .arrives 0 .register aliceRequest :: List.replicate 3 (.query 0 aliceDraw aliceClock)

def aliceRow : User := ⟨1, bytes "alice", bytes "alice@example.com", aliceHash⟩

def aliceAnswer : HttpResponse :=
  grant (some (bytes "secret")) aliceRow aliceClock (.created (bytes "User registered successfully"))

theorem alice_answered :
    (after aliceCrypt (some (bytes "secret")) aliceOps).call 0 =
      some ⟨.register, aliceRequest, .answered aliceAnswer⟩ := rfl

def aliceToken : Bytes := jwt.create 1 (bytes "alice") (bytes "secret") 1000 sessionSeconds

def aliceCookies : HttpRequest where
  method := .GET
  headers := AList.singleton (bytes "Cookie") (cookieText [(bytes "token", aliceToken)])

theorem session_authenticates_alice :
    ∃ row ∈ (after aliceCrypt (some (bytes "secret")) aliceOps).users.rows, ∃ clock pass,
      AnsweredBy aliceCrypt (some (bytes "secret")) aliceOps 0 ⟨.register, aliceRequest, .answered aliceAnswer⟩ clock ∧
      (usernameOf ⟨.register, aliceRequest, .answered aliceAnswer⟩).map cStr = some row.username ∧
      passwordOf ⟨.register, aliceRequest, .answered aliceAnswer⟩ = some pass ∧
        (UserEndpoint.register = .login → password.verify aliceCrypt pass row.passwordHash = true) ∧
          ∀ now, meNode (some (bytes "secret")) now aliceCookies = .ok (if now ≤ clock.now + sessionSeconds
            then me aliceCookies { id := row.id, username := row.username }
            else .unauthorized (bytes "Invalid or missing token")) := by
  have hsemi : 59 ∉ aliceToken := semicolon_not_mem_create _ _ _ _ _
  have hcookie : aliceAnswer.headers.lookup setCookieKey = some (sessionCookie aliceToken) := lookup_cookie _ _ _ _
  have hwf : WellFormed [(bytes "token", aliceToken)] := by
    intro p hp
    rw [List.mem_singleton.mp hp]
    exact ⟨by decide, hsemi, by decide⟩
  have hfirst : [(bytes "token", aliceToken)].find? mentions = some (bytes "token", aliceToken) := by
    rw [List.find?_singleton, if_pos (mentions_token aliceToken).1]
  have hpair : pairText (bytes "token", aliceToken) = cookiePair (sessionCookie aliceToken) :=
    (cookiePair_session hsemi).symm
  have hreq : aliceCookies.headers.lookup (bytes "Cookie") = some (cookieText [(bytes "token", aliceToken)]) :=
    rfl
  exact session_authenticates aliceCrypt (some (bytes "secret")) aliceOps alice_answered rfl hcookie hwf hfirst hpair
    hreq

/-! ## Logging in -/

theorem verify_hash (hcrypt : ∀ phrase draw hashed, validation.validatePassword phrase = none →
    crypt (cStr phrase) (password.generateSalt draw) = some hashed → crypt (cStr phrase) (cStr hashed) = some hashed)
    {pass hashed : Bytes} {draw : Fin 22 → Fin 64} (hvalid : validation.validatePassword pass = none)
    (h : password.hash crypt pass draw = .ok hashed) : password.verify crypt pass hashed = true := by
  rw [password.hash] at h
  split at h
  · rename_i result hresult
    cases h
    rw [password.verify, cStr_cStr, hcrypt _ _ _ hvalid hresult]
    exact decide_eq_true rfl
  · cases h

/-- Whoever was answered 201 can log in: the lookup of any later login with the
same name and password is answered with a session for the row of that
registration, whatever went on in between. The hypothesis is that `crypt_r`
takes the hash of a valid password as the setting to make it again. -/
theorem login_after_register (crypt : password.CryptR) (jwtSecret : Option Bytes)
    (hcrypt : ∀ phrase draw hashed, validation.validatePassword phrase = none →
      crypt (cStr phrase) (password.generateSalt draw) = some hashed → crypt (cStr phrase) (cStr hashed) = some hashed)
    (ops more : List (Op ι)) {t t' : ι} {c c' : UserCall} {username pass : Bytes}
    (hc : (after crypt jwtSecret ops).call t = some c) (hr : Registered c) (hu : usernameOf c = some username)
    (hp : passwordOf c = some pass) (hc' : (after crypt jwtSecret (ops ++ more)).call t' = some c')
    (hphase : c'.phase = .finding username pass) (draw : Fin 22 → Fin 64) (clock : Clock) :
    ∃ row ∈ (after crypt jwtSecret ops).users.rows, row.username = username ∧ ∃ secret, jwtSecret = some secret ∧
      (step crypt jwtSecret (after crypt jwtSecret (ops ++ more)) (.query t' draw clock)).call t' =
        some { c' with phase := .answered (grant (some secret) row clock (.ok (bytes "Login successful"))) } := by
  have h : Inv crypt jwtSecret (after crypt jwtSecret ops) := inv_after ops
  have h' : Inv crypt jwtSecret (after crypt jwtSecret (ops ++ more)) := inv_after (ops ++ more)
  obtain ⟨username', email, pass', row, secret, clock', hasks, hmem, hmade, hsecret, -⟩ :=
    (h.calls t c hc).registered hr
  have hname : username' = username := Option.some.inj (hasks.hasUsername.symm.trans hu)
  have hpass : pass' = pass := Option.some.inj (hasks.hasPassword.symm.trans hp)
  subst hname hpass
  obtain ⟨saltDraw, hashed, hhash, hrow⟩ := hmade.hasHash
  have hname : row.username = cStr username' := hmade.hasUsername.trans (cStr_of_valid hmade.validUsername).symm
  have hfind := h'.table.find ((rows_grow ops more).subset hmem) hname
  subst hsecret
  refine ⟨row, hmem, hmade.hasUsername, secret, rfl, ?_⟩
  have hverify := verify_hash hcrypt hmade.validPassword hhash
  rw [← hrow] at hverify
  rw [Accounts.step, hc']
  simp only [Function.update_self, hphase, query, hfind, hverify, if_true]

theorem login_after_register_alice :
    ∃ row ∈ (after aliceCrypt (some (bytes "secret")) aliceOps).users.rows, row.username = bytes "alice" ∧
      ∃ secret, some (bytes "secret") = some secret ∧
        (step aliceCrypt (some (bytes "secret"))
          (after aliceCrypt (some (bytes "secret")) (aliceOps ++ [.arrives 1 .login aliceRequest]))
          (.query 1 aliceDraw aliceClock)).call 1 =
          some ⟨.login, aliceRequest,
            .answered (grant (some secret) row aliceClock (.ok (bytes "Login successful")))⟩ := by
  have hcrypt : ∀ phrase draw hashed, validation.validatePassword phrase = none →
      aliceCrypt (cStr phrase) (password.generateSalt draw) = some hashed →
        aliceCrypt (cStr phrase) (cStr hashed) = some hashed := by
    intro phrase draw hashed _ h
    rw [aliceCrypt] at h
    split at h
    · rename_i hphrase
      cases h
      rw [aliceCrypt, if_pos ⟨hphrase.1, by decide⟩]
    · cases h
  have hname : usernameOf ⟨.register, aliceRequest, .answered aliceAnswer⟩ = some (bytes "alice") := rfl
  have hpass : passwordOf ⟨.register, aliceRequest, .answered aliceAnswer⟩ = some (bytes "Secret123") := rfl
  have hfinding : (after aliceCrypt (some (bytes "secret")) (aliceOps ++ [.arrives 1 .login aliceRequest])).call 1 =
      some ⟨.login, aliceRequest, .finding (bytes "alice") (bytes "Secret123")⟩ := rfl
  exact login_after_register aliceCrypt (some (bytes "secret")) hcrypt aliceOps [.arrives 1 .login aliceRequest]
    alice_answered ⟨aliceAnswer, rfl, rfl⟩ hname hpass hfinding rfl aliceDraw aliceClock

end Accounts

end Ryklys
