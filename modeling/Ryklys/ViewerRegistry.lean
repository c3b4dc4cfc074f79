import Mathlib.Data.Finset.Card
import Ryklys.Strings

/-!
# ViewerRegistry

The table of the viewers of each stream. Every operation is one locked access;
what `Broadcast` and `CloseAll` send goes out after it, from a snapshot.
-/

namespace Ryklys

/-- `unordered_map<string, unordered_set<shared_ptr<WebSocketConnection>>>`. -/
structure ViewerRegistry (γ : Type) where
  viewers : Bytes → Option (Finset γ) := fun _ => none

namespace ViewerRegistry

section
variable {γ : Type} (r : ViewerRegistry γ) (streamId : Bytes)

/-- The set that a snapshot copies, empty where there is no entry. -/
def members : Finset γ := (r.viewers streamId).getD ∅

def closeAll : ViewerRegistry γ :=
  match r.viewers streamId with
  | none => r
  | some _ => { viewers := Function.update r.viewers streamId none }

def count : Nat :=
  match r.viewers streamId with
  | none => 0
  | some set => set.card

/-- No stream has an entry with an empty set. -/
def NoEmpty : Prop := ∀ streamId, r.viewers streamId ≠ some ∅

variable {r streamId} {t : Bytes}

theorem count_eq : r.count t = (r.members t).card := by
  unfold count members
  cases r.viewers t <;> rfl

theorem members_update (viewers : Bytes → Option (Finset γ)) (set : Option (Finset γ)) :
    (ViewerRegistry.mk (Function.update viewers streamId set)).members t =
      if t = streamId then set.getD ∅ else (ViewerRegistry.mk viewers).members t := by
  change (Function.update viewers streamId set t).getD ∅ = if _ then _ else (viewers t).getD ∅
  by_cases h : t = streamId
  · rw [if_pos h, h, Function.update_self]
  · rw [if_neg h, Function.update_of_ne h]

theorem members_closeAll : (r.closeAll streamId).members t = if t = streamId then ∅ else r.members t := by
  unfold closeAll
  split
  · rename_i h
    by_cases ht : t = streamId
    · rw [if_pos ht, ht, members, h]
      rfl
    · rw [if_neg ht]
  · exact members_update r.viewers none

theorem count_closeAll : (r.closeAll streamId).count t = if t = streamId then 0 else r.count t := by
  rw [count_eq, count_eq, members_closeAll]
  split <;> rfl

theorem noEmpty_init : NoEmpty ({} : ViewerRegistry γ) := by
  intro streamId h
  cases h

theorem noEmpty_update (h : NoEmpty r) {set : Option (Finset γ)} (hs : set ≠ some ∅) :
    NoEmpty { viewers := Function.update r.viewers streamId set } := by
  intro t
  by_cases ht : t = streamId
  · rw [ht]
    simpa using hs
  · simpa [Function.update_of_ne ht] using h t

theorem noEmpty_closeAll (h : NoEmpty r) : NoEmpty (r.closeAll streamId) := by
  unfold closeAll
  split
  · exact h
  · exact noEmpty_update h (by simp)

end

section
variable {γ : Type} [DecidableEq γ] (r : ViewerRegistry γ) (streamId : Bytes) (ws : γ)

def add : ViewerRegistry γ :=
  { viewers := Function.update r.viewers streamId (some (insert ws (r.members streamId))) }

def remove : ViewerRegistry γ :=
  match r.viewers streamId with
  | none => r
  | some set =>
    let set := set.erase ws
    { viewers := Function.update r.viewers streamId (if set = ∅ then none else some set) }

variable {r streamId ws} {t : Bytes}

theorem members_add : (r.add streamId ws).members t =
    if t = streamId then insert ws (r.members streamId) else r.members t :=
  members_update r.viewers _

theorem members_remove : (r.remove streamId ws).members t =
    if t = streamId then (r.members streamId).erase ws else r.members t := by
  unfold remove
  split
  · rename_i h
    by_cases ht : t = streamId
    · rw [if_pos ht, ht, members, h]
      rfl
    · rw [if_neg ht]
  · rename_i set h
    rw [members_update]
    congr 1
    rw [show r.members streamId = set by rw [members, h]; rfl]
    by_cases he : set.erase ws = ∅
    · rw [if_pos he, he]
      rfl
    · rw [if_neg he]
      rfl

/-! ## Counting -/

theorem count_add (h : ws ∉ r.members streamId) :
    (r.add streamId ws).count t = r.count t + if t = streamId then 1 else 0 := by
  rw [count_eq, count_eq, members_add]
  by_cases ht : t = streamId
  · rw [if_pos ht, if_pos ht, Finset.card_insert_of_notMem h, ht]
  · rw [if_neg ht, if_neg ht, Nat.add_zero]

theorem count_remove (r : ViewerRegistry γ) (streamId t : Bytes) (ws : γ) : (r.remove streamId ws).count t +
    (if t = streamId then (if ws ∈ r.members streamId then 1 else 0) else 0) = r.count t := by
  rw [count_eq, count_eq, members_remove]
  by_cases ht : t = streamId
  · rw [if_pos ht, if_pos ht, ht]
    by_cases hw : ws ∈ r.members streamId
    · rw [if_pos hw, Finset.card_erase_add_one hw]
    · rw [if_neg hw, Finset.erase_eq_of_notMem hw, Nat.add_zero]
  · rw [if_neg ht, if_neg ht, Nat.add_zero]

/-! ## No empty set -/

theorem noEmpty_add (h : NoEmpty r) : NoEmpty (r.add streamId ws) := by
  apply noEmpty_update h
  intro he
  exact Finset.insert_ne_empty _ _ (Option.some.inj he)

theorem noEmpty_remove (h : NoEmpty r) : NoEmpty (r.remove streamId ws) := by
  unfold remove
  split
  · exact h
  · rename_i set _
    apply noEmpty_update h
    by_cases he : set.erase ws = ∅
    · rw [if_pos he]
      simp
    · rw [if_neg he]
      intro hs
      exact he (Option.some.inj hs)

end

end ViewerRegistry

end Ryklys
