import Ryklys.Strings

/-!
# HTTP messages

`HttpMethod.h`, `HttpRequest.h`, `HttpResponse.h` and
`types/AuthenticatedUser.h`.
-/

namespace Ryklys

inductive HttpMethod where
  | GET
  | POST
  | PUT
  | DELETE
  | PATCH
  | HEAD
  | OPTIONS
  | TRACE
  | CONNECT
  deriving DecidableEq, Repr

def getEnumForString (method : Bytes) : Except Exn HttpMethod :=
  if method = bytes "GET" then .ok .GET
  else if method = bytes "POST" then .ok .POST
  else if method = bytes "PUT" then .ok .PUT
  else if method = bytes "DELETE" then .ok .DELETE
  else if method = bytes "PATCH" then .ok .PATCH
  else if method = bytes "HEAD" then .ok .HEAD
  else if method = bytes "OPTIONS" then .ok .OPTIONS
  else if method = bytes "TRACE" then .ok .TRACE
  else if method = bytes "CONNECT" then .ok .CONNECT
  else .error .invalidArgument

structure HttpRequest where
  method : HttpMethod
  path : Bytes := []
  version : Bytes := []
  queryString : Bytes := []
  headers : StrMap := ∅
  queryParams : StrMap := ∅
  bodyParams : StrMap := ∅
  pathParams : StrMap := ∅
  body : Bytes := []

structure HttpResponse where
  statusCode : Int
  statusText : Bytes
  headers : StrMap := ∅
  body : Bytes := []

namespace HttpResponse

def ok (body : Bytes) : HttpResponse := { statusCode := 200, statusText := bytes "OK", body := body }

def created (body : Bytes) : HttpResponse := { statusCode := 201, statusText := bytes "Created", body := body }

def noContent : HttpResponse := { statusCode := 204, statusText := bytes "No Content" }

def unauthorized (body : Bytes) : HttpResponse :=
  { statusCode := 401, statusText := bytes "Unauthorized", body := body }

def forbidden (body : Bytes) : HttpResponse :=
  { statusCode := 403, statusText := bytes "Forbidden", body := body }

def notFound (body : Bytes) : HttpResponse :=
  { statusCode := 404, statusText := bytes "Not Found", body := body }

def conflict (body : Bytes) : HttpResponse := { statusCode := 409, statusText := bytes "Conflict", body := body }

def unprocessableEntity (body : Bytes) : HttpResponse :=
  { statusCode := 422, statusText := bytes "Unprocessable Entity", body := body }

def json (json : Bytes) : HttpResponse :=
  { statusCode := 200, statusText := bytes "OK", headers := AList.singleton (bytes "Content-Type") (bytes "application/json"),
    body := json }

def internalServerError (body : Bytes) : HttpResponse :=
  { statusCode := 500, statusText := bytes "Internal Server Error", body := body }

def IsError (r : HttpResponse) : Prop := 400 ≤ r.statusCode

end HttpResponse

structure AuthenticatedUser where
  id : Int
  username : Bytes

end Ryklys
