import Mathlib.Data.List.Infix
import Mathlib.Data.List.TakeWhile

/-!
# Searching a list

`find` is the position of the first occurrence of a pattern, the result of
`std::string::find` with `none` for `npos`. A found position does not move when
text is added behind it or cut off behind it (`find_append`, `find_take`), and
text that cannot start the pattern is skipped (`find_skip`).
-/

namespace Search

variable {α : Type*} [DecidableEq α]

def find (pat : List α) : List α → Option Nat
  | [] => if pat = [] then some 0 else none
  | a :: s => if pat <+: a :: s then some 0 else (find pat s).map (· + 1)

/-- The search from position `pos` on; a `pos` past the end finds nothing. -/
def findFrom (pat s : List α) (pos : Nat) : Option Nat :=
  (find pat (s.drop pos)).map (· + pos)

def findFirstNotOf (set s : List α) (pos : Nat) : Option Nat :=
  ((s.drop pos).findIdx? (fun a => a ∉ set)).map (· + pos)

theorem find_cons (pat : List α) (a : α) (s : List α) :
    find pat (a :: s) = if pat <+: a :: s then some 0 else (find pat s).map (· + 1) := rfl

theorem find_of_prefix {pat s : List α} (h : pat <+: s) : find pat s = some 0 := by
  cases s with
  | nil => simp [find, List.prefix_nil.mp h]
  | cons a s => rw [find_cons, if_pos h]

theorem find_spec {pat : List α} : ∀ {s : List α} {i : Nat}, find pat s = some i →
    pat <+: s.drop i ∧ ∀ j < i, ¬ pat <+: s.drop j
  | [], i, h => by
    simp only [find] at h
    split at h
    · rename_i hp; subst hp; simp at h; subst h; simp
    · cases h
  | a :: s, i, h => by
    rw [find_cons] at h
    split at h
    · rename_i hp
      simp only [Option.some.injEq] at h
      subst h
      exact ⟨by simpa using hp, by simp⟩
    · rename_i hp
      obtain ⟨k, hk, rfl⟩ := Option.map_eq_some_iff.mp h
      obtain ⟨h1, h2⟩ := find_spec hk
      refine ⟨by simpa using h1, fun j hj => ?_⟩
      cases j with
      | zero => simpa using hp
      | succ j => simpa using h2 j (by omega)

theorem find_add_le {pat s : List α} {i : Nat} (h : find pat s = some i) : i + pat.length ≤ s.length := by
  obtain ⟨h1, h2⟩ := find_spec h
  have hl := h1.length_le
  rw [List.length_drop] at hl
  by_cases hp : pat = []
  · subst hp
    rcases Nat.eq_zero_or_pos i with h0 | h0
    · subst h0; simp
    · exact absurd (List.nil_prefix) (h2 0 h0)
  · have := List.length_pos_of_ne_nil hp
    omega

theorem find_eq_none {pat : List α} : ∀ {s : List α}, find pat s = none ↔ ¬ pat <:+: s
  | [] => by by_cases h : pat = [] <;> simp [find, h]
  | a :: s => by
    rw [find_cons, List.infix_cons_iff, not_or, ← find_eq_none (s := s)]
    by_cases h : pat <+: a :: s <;> simp [h]

theorem find_isSome {pat s : List α} : (find pat s).isSome ↔ pat <:+: s := by
  rw [Option.isSome_iff_ne_none, ne_eq, find_eq_none, not_not]

theorem find_eq_some {pat s : List α} {i : Nat} (h : pat <+: s.drop i)
    (hj : ∀ j < i, ¬ pat <+: s.drop j) : find pat s = some i := by
  have hin : pat <:+: s := h.isInfix.trans (List.drop_suffix i s).isInfix
  obtain ⟨k, hk⟩ := Option.isSome_iff_exists.mp (find_isSome.mpr hin)
  obtain ⟨h1, h2⟩ := find_spec hk
  rcases Nat.lt_trichotomy k i with hlt | heq | hgt
  · exact absurd h1 (hj k hlt)
  · rw [hk, heq]
  · exact absurd h (h2 i hgt)

theorem find_append {pat s : List α} {i : Nat} (h : find pat s = some i) (t : List α) :
    find pat (s ++ t) = some i := by
  have hl := find_add_le h
  obtain ⟨h1, h2⟩ := find_spec h
  refine find_eq_some ?_ fun j hj hp => ?_
  · rw [List.drop_append_of_le_length (by omega)]
    exact h1.trans (List.prefix_append _ _)
  · rw [List.drop_append_of_le_length (by omega)] at hp
    refine h2 j hj (List.prefix_of_prefix_length_le hp (List.prefix_append _ _) ?_)
    rw [List.length_drop]; omega

theorem find_take {pat s : List α} {i n : Nat} (h : find pat s = some i) (hn : i + pat.length ≤ n) :
    find pat (s.take n) = some i := by
  obtain ⟨h1, h2⟩ := find_spec h
  have hl := find_add_le h
  refine find_eq_some ?_ fun j hj hp => ?_
  · rw [List.drop_take]
    exact List.prefix_take_iff.mpr ⟨h1, by omega⟩
  · rw [List.drop_take] at hp
    exact h2 j hj (hp.trans (List.take_prefix _ _))

theorem find_take_lt {pat s : List α} {i n : Nat} (h : find pat s = some i) (hn : n < i + pat.length) :
    find pat (s.take n) = none := by
  cases hf : find pat (s.take n) with
  | none => rfl
  | some j =>
    have hj := find_append hf (s.drop n)
    rw [List.take_append_drop, h] at hj
    simp only [Option.some.injEq] at hj
    subst hj
    have := find_add_le hf
    simp at this
    omega

theorem find_drop {pat s : List α} {i j : Nat} (h : find pat s = some i) (hj : j ≤ i) :
    find pat (s.drop j) = some (i - j) := by
  obtain ⟨h1, h2⟩ := find_spec h
  refine find_eq_some ?_ fun k hk hp => ?_
  · rw [List.drop_drop, Nat.add_sub_cancel' hj]
    exact h1
  · rw [List.drop_drop] at hp
    exact h2 (j + k) (by omega) hp

theorem length_take_find {pat s : List α} {i : Nat} (h : find pat s = some i) : (s.take i).length = i := by
  have hl := find_add_le h
  exact List.length_take_of_le (by omega)

/-! ## Skipping text -/

theorem find_cons_ne {p a : α} {ps s : List α} (h : a ≠ p) :
    find (p :: ps) (a :: s) = (find (p :: ps) s).map (· + 1) := by
  rw [find_cons, if_neg]
  intro hp
  exact h (List.cons_prefix_cons.mp hp).1.symm

theorem find_skip {p : α} {ps : List α} : ∀ {pre : List α} (s : List α), p ∉ pre →
    find (p :: ps) (pre ++ s) = (find (p :: ps) s).map (· + pre.length)
  | [], s, _ => by simp
  | a :: pre, s, h => by
    simp only [List.mem_cons, not_or] at h
    rw [List.cons_append, find_cons_ne (Ne.symm h.1), find_skip s h.2, Option.map_map]
    rfl

theorem find_singleton_none {p : α} {s : List α} (h : p ∉ s) : find [p] s = none := by
  rw [find_eq_none]
  intro hi
  exact h (hi.subset (by simp))

theorem find_singleton {p : α} {pre : List α} (s : List α) (h : p ∉ pre) :
    find [p] (pre ++ p :: s) = some pre.length := by
  rw [find_skip _ h, find_of_prefix (by simp), Option.map_some, Nat.zero_add]

theorem find_singleton_cases (sep : α) (s : List α) :
    (sep ∉ s ∧ find [sep] s = none) ∨ ∃ a b, s = a ++ sep :: b ∧ sep ∉ a ∧ find [sep] s = some a.length := by
  by_cases h : sep ∈ s
  · obtain ⟨a, b, rfl, ha⟩ := List.eq_append_cons_of_mem h
    exact Or.inr ⟨a, b, rfl, ha, find_singleton b ha⟩
  · exact Or.inl ⟨h, find_singleton_none h⟩

/-! ## Text in parts -/

omit [DecidableEq α] in
theorem prefix_append_sep {pat : List α} {sep : α} (hsep : sep ∉ pat) {a b : List α} :
    pat <+: a ++ sep :: b ↔ pat <+: a := by
  constructor
  · intro h
    by_cases hl : pat.length ≤ a.length
    · exact List.prefix_of_prefix_length_le h (List.prefix_append _ _) hl
    · have hp : a ++ [sep] <+: a ++ sep :: b := by simp
      have := List.prefix_of_prefix_length_le hp h (by simp; omega)
      exact absurd (this.subset (by simp)) hsep
  · intro h
    exact h.trans (List.prefix_append _ _)

omit [DecidableEq α] in
theorem drop_append_sep (sep : α) (a b : List α) : (a ++ sep :: b).drop (a.length + 1) = b := by
  rw [List.drop_length_add_append, List.drop_one, List.tail_cons]

/-- A pattern without the separator is found in the first part, or behind it. -/
theorem find_append_sep {p : α} {ps : List α} {sep : α} (hsep : sep ∉ p :: ps) (b : List α) : ∀ a : List α,
    find (p :: ps) (a ++ sep :: b) = (find (p :: ps) a).or ((find (p :: ps) b).map (· + (a.length + 1)))
  | [] => by
    have hne : sep ≠ p := fun h => hsep (by simp [h])
    rw [List.nil_append, find_cons_ne hne]
    rfl
  | x :: a => by
    have hpre : p :: ps <+: x :: (a ++ sep :: b) ↔ p :: ps <+: x :: a := prefix_append_sep (a := x :: a) hsep
    rw [List.cons_append, find_cons, find_cons, find_append_sep hsep b a]
    by_cases h : p :: ps <+: x :: a
    · rw [if_pos (hpre.mpr h), if_pos h]
      rfl
    · rw [if_neg fun hp => h (hpre.mp hp), if_neg h]
      cases find (p :: ps) a with
      | some i => rfl
      | none =>
        cases find (p :: ps) b with
        | none => rfl
        | some j =>
          simp only [Option.none_or, Option.map_some, List.length_cons]
          exact congrArg some (by omega)

/-- Text put in at `j` that shares no element with the pattern. -/
theorem find_insert {pat s w : List α} {i j : Nat} (hpat : pat ≠ []) (h : find pat s = some i) (hj : j ≤ i)
    (hw : ∀ c ∈ w, c ∉ pat) : find pat (s.take j ++ (w ++ s.drop j)) = some (i + w.length) := by
  obtain ⟨p, ps, rfl⟩ := List.exists_cons_of_ne_nil hpat
  have hl := find_add_le h
  cases w with
  | nil => rw [List.nil_append, List.take_append_drop, h, List.length_nil, Nat.add_zero]
  | cons c w =>
    have hfront : find (p :: ps) (s.take j) = none := find_take_lt h (by rw [List.length_cons]; omega)
    have hskip : p ∉ w := fun hp => hw p (List.mem_cons_of_mem c hp) List.mem_cons_self
    have hlen : (s.take j).length = j := List.length_take_of_le (by omega)
    rw [List.cons_append, find_append_sep (hw c List.mem_cons_self), hfront, find_skip _ hskip, find_drop h hj, hlen]
    simp only [Option.none_or, Option.map_some, List.length_cons]
    exact congrArg some (by omega)

theorem find_insert_none {pat s w : List α} (j : Nat) (hpat : pat ≠ []) (h : find pat s = none)
    (hw : ∀ c ∈ w, c ∉ pat) : find pat (s.take j ++ (w ++ s.drop j)) = none := by
  obtain ⟨p, ps, rfl⟩ := List.exists_cons_of_ne_nil hpat
  cases w with
  | nil => rw [List.nil_append, List.take_append_drop, h]
  | cons c w =>
    have hpart : ∀ t : List α, t <:+: s → find (p :: ps) t = none :=
      fun t ht => find_eq_none.mpr fun hi => find_eq_none.mp h (hi.trans ht)
    have hskip : p ∉ w := fun hp => hw p (List.mem_cons_of_mem c hp) List.mem_cons_self
    rw [List.cons_append, find_append_sep (hw c List.mem_cons_self), find_skip _ hskip,
      hpart _ (List.take_prefix j s).isInfix, hpart _ (List.drop_suffix j s).isInfix]
    rfl

theorem ne_sep {sep : α} {a : List α} (ha : sep ∉ a) : ∀ x ∈ a, decide (x ≠ sep) = true := by
  intro x hx
  apply decide_eq_true
  rintro rfl
  exact ha hx

theorem takeWhile_append_sep {sep : α} {a : List α} (ha : sep ∉ a) (b : List α) :
    (a ++ sep :: b).takeWhile (fun x => decide (x ≠ sep)) = a := by
  rw [List.takeWhile_append_of_pos (ne_sep ha), List.takeWhile_cons_of_neg (by simp), List.append_nil]

theorem takeWhile_sep {sep : α} {a : List α} (ha : sep ∉ a) : a.takeWhile (fun x => decide (x ≠ sep)) = a :=
  List.takeWhile_eq_self_iff.mpr (ne_sep ha)

theorem dropWhile_append_sep {sep : α} {a : List α} (ha : sep ∉ a) (b : List α) :
    (a ++ sep :: b).dropWhile (fun x => decide (x ≠ sep)) = sep :: b := by
  rw [List.dropWhile_append_of_pos (ne_sep ha), List.dropWhile_cons_of_neg (by simp)]

theorem dropWhile_sep {sep : α} {a : List α} (ha : sep ∉ a) : a.dropWhile (fun x => decide (x ≠ sep)) = [] :=
  List.dropWhile_eq_nil_iff.mpr (ne_sep ha)

/-- The text before and behind the first separator. -/
def cutAt (sep : α) (s : List α) : Option (List α × List α) :=
  if sep ∈ s then some (s.takeWhile fun x => decide (x ≠ sep), (s.dropWhile fun x => decide (x ≠ sep)).drop 1)
  else none

theorem cutAt_none {sep : α} {s : List α} (h : sep ∉ s) : cutAt sep s = none := if_neg h

theorem cutAt_append {sep : α} {a : List α} (ha : sep ∉ a) (b : List α) : cutAt sep (a ++ sep :: b) = some (a, b) := by
  rw [cutAt, if_pos (by simp), takeWhile_append_sep ha, dropWhile_append_sep ha]
  rfl

theorem map_find_singleton (sep : α) (s : List α) :
    ((find [sep] s).map fun i => (s.take i, s.drop (i + 1))) = cutAt sep s := by
  rcases find_singleton_cases sep s with ⟨hn, hf⟩ | ⟨a, b, rfl, hn, hf⟩
  · rw [hf, cutAt_none hn]
    rfl
  · rw [hf, cutAt_append hn, Option.map_some, List.take_left, drop_append_sep]

theorem take_find_singleton (sep : α) (s : List α) :
    (match find [sep] s with
      | some i => s.take i
      | none => s) = s.takeWhile fun x => decide (x ≠ sep) := by
  by_cases h : sep ∈ s
  · obtain ⟨a, b, rfl, ha⟩ := List.eq_append_cons_of_mem h
    rw [find_singleton b ha, takeWhile_append_sep ha]
    exact List.take_left
  · rw [find_singleton_none h, takeWhile_sep h]

/-! ## The first element outside a set -/

theorem findFirstNotOf_none {set s : List α} {pos : Nat} :
    findFirstNotOf set s pos = none ↔ ∀ a ∈ s.drop pos, a ∈ set := by
  simp [findFirstNotOf, List.findIdx?_eq_none_iff]

theorem drop_findFirstNotOf {set s : List α} {pos i : Nat} (h : findFirstNotOf set s pos = some i) :
    s.drop i = (s.drop pos).dropWhile (· ∈ set) := by
  obtain ⟨k, hk, rfl⟩ := Option.map_eq_some_iff.mp h
  obtain ⟨-, hidx⟩ := List.findIdx?_eq_some_iff_findIdx_eq.mp hk
  rw [List.dropWhile_eq_drop_findIdx_not, List.drop_drop, Nat.add_comm]
  simp only [← hidx, decide_not]

end Search
