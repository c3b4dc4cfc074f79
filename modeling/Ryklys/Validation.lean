import Ryklys.Separated
import Ryklys.Strings

/-!
# Validation of user input

`utils/Validation.h`: the error message, or nothing for an accepted value.
-/

namespace Ryklys

open Search

namespace validation

def isNameChar (c : UInt8) : Bool := isAlnum c || c == 95 || c == 45

def validateUsername (username : Bytes) : Option Bytes :=
  if username.length < 3 then some (bytes "Username must be at least 3 characters")
  else if username.length > 50 then some (bytes "Username must be at most 50 characters")
  else if username.all isNameChar then none
  else some (bytes "Username can only contain letters, numbers, _ and -")

theorem nameChars_of_valid {username : Bytes} (h : validateUsername username = none) :
    ∀ c ∈ username, isNameChar c = true := by
  unfold validateUsername at h
  split at h
  · cases h
  split at h
  · cases h
  split at h
  · rename_i hall
    exact List.all_eq_true.mp hall
  · cases h

def validatePassword (password : Bytes) : Option Bytes :=
  if password.length < 8 then some (bytes "Password must be at least 8 characters")
  else if password.length > 128 then some (bytes "Password too long")
  else if password.any isUpper && password.any isLower && password.any Numeral.isDigit then none
  else some (bytes "Password must contain uppercase, lowercase, and a digit")

/-! ## Email -/

def isLocalChar (c : UInt8) : Bool := isAlnum c || c == 46 || c == 95 || c == 45 || c == 43

def isDomainChar (c : UInt8) : Bool := isAlnum c || c == 45 || c == 46

def invalidEmail : Bytes := bytes "Invalid email"

/-- The loop over the labels of the domain; every pass moves `pos` on. -/
def labelLoop (domain : Bytes) : Nat → Nat → Option Bytes
  | 0, _ => none
  | fuel + 1, pos =>
    if pos < domain.length then
      let dot := (findFrom [46] domain pos).getD domain.length
      let label := (domain.drop pos).take (dot - pos)
      if label = [] ∨ label.length > 63 then some invalidEmail
      else if label.head? = some 45 ∨ label.getLast? = some 45 then some invalidEmail
      else labelLoop domain fuel (dot + 1)
    else none

def checkLocal (loc : Bytes) : Option Bytes :=
  if loc = [] ∨ loc.length > 64 then some invalidEmail
  else if loc.head? = some 46 ∨ loc.getLast? = some 46 then some invalidEmail
  else if (find (bytes "..") loc).isSome then some invalidEmail
  else if loc.all isLocalChar then none
  else some invalidEmail

def checkDomain (domain : Bytes) : Option Bytes :=
  if domain = [] ∨ domain.length > 253 then some invalidEmail
  else if domain.head? = some 45 ∨ domain.getLast? = some 45 then some invalidEmail
  else if domain.head? = some 46 ∨ domain.getLast? = some 46 then some invalidEmail
  else if (find (bytes "..") domain).isSome then some invalidEmail
  else
    match Separated.rfind 46 domain with
    | none => some invalidEmail
    | some lastDot =>
      if (domain.drop (lastDot + 1)).length < 2 then some invalidEmail
      else if domain.all isDomainChar then labelLoop domain domain.length 0
      else some invalidEmail

def validateEmail (email : Bytes) : Option Bytes :=
  if email = [] then some (bytes "Email is required")
  else if email.length > 254 then some (bytes "Email too long")
  else
    match find (bytes "@") email with
    | none => some invalidEmail
    | some pos =>
      if (findFrom (bytes "@") email (pos + 1)).isSome then some invalidEmail
      else
        match checkLocal (email.take pos) with
        | some err => some err
        | none => checkDomain (email.drop (pos + 1))

end validation

end Ryklys
