import Mathlib.Data.List.Infix

/-!
# Normal forms of paths

A path is a word over an alphabet with a separator and a dot. `normal` is the
list of names that a lookup from the root goes down: empty and `.` components
are skipped, `..` goes up. An ordinary component behind a path adds one name at
its end (`normal_ordinary`), so that paths built from ordinary components are
told apart by them.
-/

namespace Paths

variable {α : Type*} [DecidableEq α] (sep dot : α)

def push (names : List (List α)) (c : List α) : List (List α) :=
  if c = [] ∨ c = [dot] then names else if c = [dot, dot] then names.dropLast else names ++ [c]

def normal (p : List α) : List (List α) := (p.splitOn sep).foldl (push dot) []

/-- A component that names a directory entry. -/
structure Ordinary (c : List α) : Prop where
  ne_nil : c ≠ []
  ne_dot : c ≠ [dot]
  ne_dotdot : c ≠ [dot, dot]
  no_sep : sep ∉ c

/-- Neither path is, or is an ancestor of, the other. -/
def Apart (p q : List α) : Prop :=
  ¬ normal sep dot p <+: normal sep dot q ∧ ¬ normal sep dot q <+: normal sep dot p

instance (p q : List α) : Decidable (Apart sep dot p q) := by unfold Apart; infer_instance

variable {sep dot}

theorem normal_append (p q : List α) :
    normal sep dot (p ++ sep :: q) = (q.splitOn sep).foldl (push dot) (normal sep dot p) := by
  rw [normal, List.splitOn_append_cons_self, List.foldl_append]
  rfl

theorem normal_child (p : List α) {c : List α} (hc : sep ∉ c) :
    normal sep dot (p ++ sep :: c) = push dot (normal sep dot p) c := by
  rw [normal_append, List.splitOn_eq_singleton hc]
  rfl

theorem push_ordinary (names : List (List α)) {c : List α} (hc : Ordinary sep dot c) :
    push dot names c = names ++ [c] := by
  rw [push, if_neg (by simp [hc.ne_nil, hc.ne_dot]), if_neg hc.ne_dotdot]

@[simp] theorem push_dot (names : List (List α)) : push dot names [dot] = names := by
  rw [push, if_pos (Or.inr rfl)]

theorem push_length_le (dot : α) (names : List (List α)) (c : List α) : (push dot names c).length ≤ names.length + 1 := by
  unfold push
  split
  · exact Nat.le_succ _
  split
  · rw [List.length_dropLast]
    omega
  · rw [List.length_append, List.length_singleton]

theorem normal_ordinary (p : List α) {c : List α} (hc : Ordinary sep dot c) :
    normal sep dot (p ++ sep :: c) = normal sep dot p ++ [c] := by
  rw [normal_child p hc.no_sep, push_ordinary _ hc]

theorem apart_of_length {p q : List α} (hl : (normal sep dot p).length = (normal sep dot q).length)
    (hne : normal sep dot p ≠ normal sep dot q) : Apart sep dot p q := by
  constructor
  · intro h
    exact hne (h.eq_of_length hl)
  · intro h
    exact hne (h.eq_of_length hl.symm).symm

theorem Apart.symm {p q : List α} (h : Apart sep dot p q) : Apart sep dot q p := And.symm h

theorem Apart.ne {p q : List α} (h : Apart sep dot p q) : normal sep dot p ≠ normal sep dot q := by
  intro he
  apply h.1
  rw [he]

end Paths
