import Mathlib.Logic.Function.Basic
import Ryklys.HttpMessage
import Ryklys.JsonWebToken
import Ryklys.UsersTable
import Ryklys.Validation

/-!
# Registration and login

The handlers of `UserRoutes.cpp` and `utils/PasswordHash.h`. Any number of
requests run at once over the one table; between two queries of a handler the
others go on. `crypt_r` is a parameter, the salt's random draws and the clock
come with the step.
-/

namespace Ryklys

namespace password

def charset : Bytes := bytes "./ABCDEFGHIJKLMNOPQRSTUVWXYZabcdefghijklmnopqrstuvwxyz0123456789"

def generateSalt (draw : Fin 22 → Fin 64) : Bytes :=
  bytes "$2b$12$" ++ List.ofFn fun i => charset.getD (draw i).val 0

/-- `crypt_r(phrase, setting)` on C strings; `none` where it returns no string. -/
abbrev CryptR := Bytes → Bytes → Option Bytes

/-- No string in the result makes the constructor of `std::string` throw. -/
def hash (crypt : CryptR) (password : Bytes) (draw : Fin 22 → Fin 64) : Except Exn Bytes :=
  match crypt (cStr password) (generateSalt draw) with
  | some result => .ok (cStr result)
  | none => .error .other

def verify (crypt : CryptR) (password hash : Bytes) : Bool :=
  match crypt (cStr password) (cStr hash) with
  | some result => decide (hash = cStr result)
  | none => false

end password

/-- A reading of the clock, in seconds. -/
structure Clock where
  now : Int
  bounded : 0 ≤ now ∧ now ≤ 2 ^ 62

def sessionSeconds : Int := 7 * 24 * 60 * 60

def setCookieKey : Bytes := bytes "Set-Cookie"

def sessionCookie (token : Bytes) : Bytes :=
  bytes "token=" ++ token ++ bytes "; HttpOnly; Secure; SameSite=None; Path=/; Max-Age=" ++
    Numeral.ofInt sessionSeconds

def logout (_ : HttpRequest) : HttpResponse :=
  let response := HttpResponse.ok (bytes "Logged out")
  { response with
    headers := response.headers.insert setCookieKey (bytes "token=; HttpOnly; SameSite=Lax; Path=/; Max-Age=0") }

def me (_ : HttpRequest) (authUser : AuthenticatedUser) : HttpResponse :=
  .json (bytes "\x7b\"id\":" ++ Numeral.ofInt authUser.id ++ bytes ", \"username\":\"" ++ authUser.username ++
    bytes "\"\x7d")

/-- Where a handler is: before its next query, or done. -/
inductive UserPhase where
  | checkingUsername (username email password : Bytes)
  | checkingEmail (username email password : Bytes)
  | creating (username email hashed : Bytes)
  | finding (username password : Bytes)
  | answered (response : HttpResponse)

inductive UserEndpoint where
  | register
  | login
  deriving DecidableEq, Repr

/-- What `HandleRead` answers when a handler throws. -/
def thrown : UserPhase := .answered (.internalServerError (bytes "Internal server error"))

def registerStart (request : HttpRequest) : UserPhase :=
  match request.bodyParams.lookup (bytes "username") with
  | none => .answered (.unprocessableEntity (bytes "Missing username"))
  | some username =>
    match request.bodyParams.lookup (bytes "email") with
    | none => .answered (.unprocessableEntity (bytes "Missing email"))
    | some email =>
      match request.bodyParams.lookup (bytes "password") with
      | none => .answered (.unprocessableEntity (bytes "Missing password"))
      | some password =>
        match validation.validateUsername username with
        | some err => .answered (.unprocessableEntity err)
        | none =>
          match validation.validateEmail email with
          | some err => .answered (.unprocessableEntity err)
          | none =>
            match validation.validatePassword password with
            | some err => .answered (.unprocessableEntity err)
            | none => .checkingUsername username email password

def loginStart (request : HttpRequest) : UserPhase :=
  match request.bodyParams.lookup (bytes "username") with
  | none => .answered (.unprocessableEntity (bytes "Missing username"))
  | some username =>
    match request.bodyParams.lookup (bytes "password") with
    | none => .answered (.unprocessableEntity (bytes "Missing password"))
    | some password => .finding username password

def UserEndpoint.start : UserEndpoint → HttpRequest → UserPhase
  | register => registerStart
  | login => loginStart

/-- The response with a new session's cookie. -/
def grant (jwtSecret : Option Bytes) (user : User) (clock : Clock) (response : HttpResponse) : HttpResponse :=
  match jwtSecret with
  | none => .internalServerError (bytes "JWT secret not configured")
  | some secret =>
    let token := jwt.create user.id user.username secret clock.now sessionSeconds
    { response with headers := response.headers.insert setCookieKey (sessionCookie token) }

structure UserCall where
  endpoint : UserEndpoint
  request : HttpRequest
  phase : UserPhase

structure Accounts (ι : Type) where
  users : UsersTable := {}
  call : ι → Option UserCall := fun _ => none

namespace Accounts

variable {ι : Type} [DecidableEq ι] (crypt : password.CryptR) (jwtSecret : Option Bytes)

/-- The next query of a handler, and the handler on to the one after it. -/
def query (users : UsersTable) (draw : Fin 22 → Fin 64) (clock : Clock) : UserPhase → UsersTable × UserPhase
  | .checkingUsername username email password =>
    if users.isUsernameTaken username then (users, .answered (.conflict (bytes "Username is already taken")))
    else (users, .checkingEmail username email password)
  | .checkingEmail username email password =>
    if users.isEmailTaken email then (users, .answered (.conflict (bytes "Email is already taken")))
    else
      match Ryklys.password.hash crypt password draw with
      | .ok hashed => (users, .creating username email hashed)
      | .error _ => (users, thrown)
  | .creating username email hashed =>
    match users.create username email hashed with
    | (.ok user, users') =>
      (users', .answered (grant jwtSecret user clock (.created (bytes "User registered successfully"))))
    | (.error .uniqueViolation, users') =>
      (users', .answered (.conflict (bytes "Username or email is already taken")))
    | (.error .other, users') => (users', thrown)
  | .finding username password =>
    match users.findByUsername username with
    | none => (users, .answered (.unauthorized (bytes "Invalid username or password")))
    | some user =>
      if Ryklys.password.verify crypt password user.passwordHash then
        (users, .answered (grant jwtSecret user clock (.ok (bytes "Login successful"))))
      else (users, .answered (.unauthorized (bytes "Invalid username or password")))
  | .answered response => (users, .answered response)

/-- A query that throws; an `INSERT` may have been committed all the same. -/
def queryFails (users : UsersTable) (committed : Bool) : UserPhase → UsersTable × UserPhase
  | .creating username email hashed => (if committed then (users.create username email hashed).2 else users, thrown)
  | .answered response => (users, .answered response)
  | _ => (users, thrown)

inductive Op (ι : Type) where
  | arrives (t : ι) (endpoint : UserEndpoint) (request : HttpRequest)
  | query (t : ι) (draw : Fin 22 → Fin 64) (clock : Clock)
  | fails (t : ι) (committed : Bool)

def step (s : Accounts ι) : Op ι → Accounts ι
  | .arrives t endpoint request =>
    match s.call t with
    | none => { s with call := Function.update s.call t (some ⟨endpoint, request, endpoint.start request⟩) }
    | some _ => s
  | .query t draw clock =>
    match s.call t with
    | none => s
    | some c =>
      let r := query crypt jwtSecret s.users draw clock c.phase
      ⟨r.1, Function.update s.call t (some { c with phase := r.2 })⟩
  | .fails t committed =>
    match s.call t with
    | none => s
    | some c =>
      let r := queryFails s.users committed c.phase
      ⟨r.1, Function.update s.call t (some { c with phase := r.2 })⟩

end Accounts

end Ryklys
