import Ryklys.Base64Url

/-!
# JSON web tokens

`jwt::Create` and `jwt::Verify`. The clock is an argument: the time of issue
for `create`, the time of the check for `verify`.
-/

namespace Ryklys

namespace jwt

open Search

def headerJson : Bytes := bytes "\x7b\"alg\":\"HS256\",\"typ\":\"JWT\"\x7d"

def payloadJson (userId : Int) (username : Bytes) (exp : Int) : Bytes :=
  bytes "\x7b\"id\":" ++ Numeral.ofInt userId ++ bytes ",\"username\":\"" ++ username ++ bytes "\"" ++
    bytes ",\"exp\":" ++ Numeral.ofInt exp ++ bytes "\x7d"

def create (userId : Int) (username secret : Bytes) (issued expiresInSeconds : Int) : Bytes :=
  let header := base64UrlEncode headerJson
  let exp := issued + expiresInSeconds
  let payload := base64UrlEncode (payloadJson userId username exp)
  let signingInput := header ++ bytes "." ++ payload
  let signature := base64UrlEncode (crypto.hmacSha256 secret signingInput)
  signingInput ++ bytes "." ++ signature

structure Claims where
  id : Int
  username : Bytes
  exp : Int
  deriving DecidableEq, Repr

def idKey : Bytes := bytes "\"id\":"
def usernameKey : Bytes := bytes "\"username\":\""
def expKey : Bytes := bytes "\"exp\":"

def readClaims (payloadJson : Bytes) (now : Int) : Except Exn (Option Claims) :=
  match find idKey payloadJson with
  | none => .ok none
  | some idPos => do
    let id ← stoi (payloadJson.drop (idPos + 5))
    match find usernameKey payloadJson with
    | none => return none
    | some userPos =>
      let userStart := userPos + 12
      let username := match findFrom (bytes "\"") payloadJson userStart with
        | some userEnd => (payloadJson.drop userStart).take (userEnd - userStart)
        | none => payloadJson.drop userStart
      match find expKey payloadJson with
      | none => return none
      | some expPos =>
        let exp ← stol (payloadJson.drop (expPos + 6))
        if exp < now then return none else return some { id, username, exp }

def verify (token secret : Bytes) (now : Int) : Except Exn (Option Claims) :=
  match find (bytes ".") token with
  | none => .ok none
  | some dot1 =>
    match findFrom (bytes ".") token (dot1 + 1) with
    | none => .ok none
    | some dot2 =>
      if (findFrom (bytes ".") token (dot2 + 1)).isSome then .ok none
      else
        let signingInput := token.take dot2
        let signature := token.drop (dot2 + 1)
        let expected := base64UrlEncode (crypto.hmacSha256 secret signingInput)
        if signature ≠ expected then .ok none
        else readClaims (base64UrlDecode ((token.drop (dot1 + 1)).take (dot2 - dot1 - 1))) now

end jwt

end Ryklys
