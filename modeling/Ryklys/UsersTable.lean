import Mathlib.Data.List.Nodup
import Ryklys.Strings

/-!
# The table of users

`users` of `init.sql` and the queries of `UserRepository`. A query is one
transaction; `UNIQUE` and `SERIAL` are the database's, a value of the sequence
is used up even where the row is refused.
-/

namespace Ryklys

structure User where
  id : Int
  username : Bytes
  email : Bytes
  passwordHash : Bytes
  deriving DecidableEq, Repr

inductive DbError where
  | uniqueViolation
  | other
  deriving DecidableEq, Repr

structure UsersTable where
  rows : List User := []
  -- the sequence behind `id`
  nextId : Int := 1

/-- What a C string is up to its first NUL; a text parameter goes to the database as one. -/
def cStr (s : Bytes) : Bytes := s.takeWhile (· ≠ 0)

theorem cStr_of_not_mem {s : Bytes} (h : 0 ∉ s) : cStr s = s :=
  List.takeWhile_eq_self_iff.mpr fun c hc => decide_eq_true fun (he : c = 0) => h (he ▸ hc)

theorem cStr_cStr (s : Bytes) : cStr (cStr s) = cStr s := by
  refine List.takeWhile_eq_self_iff.mpr fun c hc => ?_
  exact List.mem_takeWhile_imp (p := fun c => decide (c ≠ 0)) hc

namespace UsersTable

variable (T : UsersTable)

def isUsernameTaken (username : Bytes) : Bool := T.rows.any fun r => decide (r.username = cStr username)

def isEmailTaken (email : Bytes) : Bool := T.rows.any fun r => decide (r.email = cStr email)

def findByUsername (username : Bytes) : Option User := T.rows.find? fun r => decide (r.username = cStr username)

/-- `INSERT … RETURNING`; the widths are those of `VARCHAR(50)`, `(254)` and `(255)`. -/
def create (username email passwordHash : Bytes) : Except DbError User × UsersTable :=
  if 2 ^ 31 - 1 < T.nextId then (.error .other, T)
  else
    let row : User := ⟨T.nextId, cStr username, cStr email, cStr passwordHash⟩
    if 50 < row.username.length ∨ 254 < row.email.length ∨ 255 < row.passwordHash.length then
      (.error .other, { T with nextId := T.nextId + 1 })
    else if T.rows.any fun r => decide (r.username = row.username ∨ r.email = row.email) then
      (.error .uniqueViolation, { T with nextId := T.nextId + 1 })
    else (.ok row, { rows := T.rows ++ [row], nextId := T.nextId + 1 })

/-! ## What the constraints keep -/

structure Inv : Prop where
  usernames : (T.rows.map User.username).Nodup
  emails : (T.rows.map User.email).Nodup
  ascending : (T.rows.map User.id).Pairwise (· < ·)
  ids : ∀ r ∈ T.rows, 1 ≤ r.id ∧ r.id < T.nextId ∧ r.id ≤ 2 ^ 31 - 1
  next : 1 ≤ T.nextId

variable {T}

theorem inv_empty : Inv {} := by
  refine ⟨List.nodup_nil, List.nodup_nil, List.Pairwise.nil, ?_, le_refl 1⟩
  intro r hr
  cases hr

theorem create_ok {username email hash : Bytes} {user : User} {T' : UsersTable}
    (h : T.create username email hash = (.ok user, T')) :
    user = ⟨T.nextId, cStr username, cStr email, cStr hash⟩ ∧ T'.rows = T.rows ++ [user] ∧
      T'.nextId = T.nextId + 1 ∧ T.nextId ≤ 2 ^ 31 - 1 ∧
      ∀ r ∈ T.rows, r.username ≠ user.username ∧ r.email ≠ user.email := by
  rw [create] at h
  split at h
  · cases h
  · rename_i hid
    dsimp only at h
    split at h
    · cases h
    · split at h
      · cases h
      · rename_i hfree
        cases h
        refine ⟨rfl, rfl, rfl, Int.not_lt.mp hid, fun r hr => ?_⟩
        have hr' := fun heq => hfree (List.any_eq_true.mpr ⟨r, hr, decide_eq_true heq⟩)
        exact ⟨fun he => hr' (.inl he), fun he => hr' (.inr he)⟩

theorem create_error {username email hash : Bytes} {e : DbError} {T' : UsersTable}
    (h : T.create username email hash = (.error e, T')) :
    T'.rows = T.rows ∧ (T'.nextId = T.nextId ∨ T'.nextId = T.nextId + 1) := by
  rw [create] at h
  split at h
  · cases h
    exact ⟨rfl, .inl rfl⟩
  · dsimp only at h
    split at h
    · cases h
      exact ⟨rfl, .inr rfl⟩
    · split at h
      · cases h
        exact ⟨rfl, .inr rfl⟩
      · cases h

theorem Inv.append (h : T.Inv) {user : User} {T' : UsersTable} (hrows : T'.rows = T.rows ++ [user])
    (hnext : T'.nextId = T.nextId + 1) (hid : user.id = T.nextId) (hle : T.nextId ≤ 2 ^ 31 - 1)
    (hfree : ∀ r ∈ T.rows, r.username ≠ user.username ∧ r.email ≠ user.email) : T'.Inv := by
  have hone := h.next
  refine ⟨?_, ?_, ?_, ?_, by omega⟩
  · rw [hrows, List.map_append, List.map_singleton, List.nodup_append]
    refine ⟨h.usernames, List.nodup_singleton _, ?_⟩
    intro a ha b hb
    obtain ⟨r, hr, rfl⟩ := List.mem_map.mp ha
    rw [List.mem_singleton.mp hb]
    exact (hfree r hr).1
  · rw [hrows, List.map_append, List.map_singleton, List.nodup_append]
    refine ⟨h.emails, List.nodup_singleton _, ?_⟩
    intro a ha b hb
    obtain ⟨r, hr, rfl⟩ := List.mem_map.mp ha
    rw [List.mem_singleton.mp hb]
    exact (hfree r hr).2
  · rw [hrows, List.map_append, List.map_singleton, List.pairwise_append]
    refine ⟨h.ascending, List.pairwise_singleton _ _, ?_⟩
    intro a ha b hb
    obtain ⟨r, hr, rfl⟩ := List.mem_map.mp ha
    rw [List.mem_singleton.mp hb, hid]
    exact (h.ids r hr).2.1
  · intro r hr
    rw [hrows] at hr
    rcases List.mem_append.mp hr with hr | hr
    · have hi := h.ids r hr
      omega
    · rw [List.mem_singleton.mp hr, hid]
      omega

theorem Inv.create (h : T.Inv) (username email hash : Bytes) : (T.create username email hash).2.Inv := by
  cases hc : T.create username email hash with
  | mk r T' =>
    cases r with
    | ok user =>
      obtain ⟨huser, hrows, hnext, hle, hfree⟩ := create_ok hc
      exact h.append hrows hnext (by rw [huser]) hle hfree
    | error e =>
      obtain ⟨hrows, hnext⟩ := create_error hc
      have hone := h.next
      dsimp only
      refine ⟨by rw [hrows]; exact h.usernames, by rw [hrows]; exact h.emails, by rw [hrows]; exact h.ascending, ?_,
        by omega⟩
      intro r hr
      rw [hrows] at hr
      have hi := h.ids r hr
      omega

theorem Inv.unique (h : T.Inv) {r r' : User} (hr : r ∈ T.rows) (hr' : r' ∈ T.rows) (he : r.username = r'.username) :
    r = r' :=
  List.inj_on_of_nodup_map h.usernames hr hr' he

theorem Inv.find (h : T.Inv) {r : User} (hr : r ∈ T.rows) {username : Bytes} (he : r.username = cStr username) :
    T.findByUsername username = some r := by
  rw [findByUsername]
  cases hf : T.rows.find? fun r => decide (r.username = cStr username) with
  | none => exact absurd (decide_eq_true he) (List.find?_eq_none.mp hf r hr)
  | some r' =>
    have hname : r'.username = cStr username := by simpa using List.find?_some hf
    rw [h.unique (List.mem_of_find?_eq_some hf) hr (hname.trans he.symm)]

end UsersTable

end Ryklys
