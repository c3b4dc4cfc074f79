import Ryklys.Search

/-!
# Texts in parts

A text is its parts with a separator between them. What holds of the text (its
ends, its doubled separators, its characters) is told by what holds of its
parts: every lemma here goes by the first separator of the text
(`first_separator`).
-/

namespace Separated

variable {α : Type*} [DecidableEq α] {sep : α}

/-- Induction on the parts: a text without the separator, or one behind its
first separator. -/
@[elab_as_elim]
theorem first_separator {motive : List α → Prop} (sep : α) (part : ∀ s, sep ∉ s → motive s)
    (cut : ∀ a b, sep ∉ a → motive b → motive (a ++ sep :: b)) (s : List α) : motive s := by
  induction hn : s.length using Nat.strong_induction_on generalizing s with
  | _ n ih =>
    by_cases h : sep ∈ s
    · obtain ⟨a, b, rfl, ha⟩ := List.eq_append_cons_of_mem h
      apply cut a b ha
      rw [List.length_append, List.length_cons] at hn
      exact ih b.length (by omega) b rfl
    · exact part s h

theorem splitOn_part {s : List α} (h : sep ∉ s) : s.splitOn sep = [s] := List.splitOn_eq_singleton h

theorem splitOn_cut {a : List α} (ha : sep ∉ a) (b : List α) : (a ++ sep :: b).splitOn sep = a :: b.splitOn sep :=
  List.splitOn_append_cons_self_of_not_mem ha b

/-! ## Parts -/

/-- The elements of the parts are those of the text, but the separators. -/
theorem forall_mem_parts {Q : α → Prop} (s : List α) :
    (∀ p ∈ s.splitOn sep, ∀ x ∈ p, Q x) ↔ ∀ x ∈ s, x ≠ sep → Q x := by
  induction s using first_separator sep with
  | part s h =>
    rw [splitOn_part h]
    constructor
    · intro hq x hx _
      exact hq s (List.mem_singleton_self s) x hx
    · intro hq p hp x hx
      rw [List.mem_singleton.mp hp] at hx
      exact hq x hx fun he => h (he ▸ hx)
  | cut a b ha ih =>
    rw [splitOn_cut ha, List.forall_mem_cons, ih, List.forall_mem_append, List.forall_mem_cons]
    constructor
    · rintro ⟨h1, h2⟩
      exact ⟨fun x hx _ => h1 x hx, fun he => absurd rfl he, h2⟩
    · rintro ⟨h1, -, h2⟩
      exact ⟨fun x hx => h1 x hx fun he => ha (he ▸ hx), h2⟩

/-- A text is joined from parts of a kind if and only if its own parts are of
that kind. -/
theorem joined_iff {P : List α → Prop} (hP : ∀ p, P p → sep ∉ p) (s : List α) :
    (∃ ps, ps ≠ [] ∧ s = [sep].intercalate ps ∧ ∀ p ∈ ps, P p) ↔ ∀ p ∈ s.splitOn sep, P p := by
  constructor
  · rintro ⟨ps, hne, rfl, hps⟩
    rwa [List.splitOn_intercalate sep (fun p hp => hP p (hps p hp)) hne]
  · intro h
    exact ⟨s.splitOn sep, List.splitOn_ne_nil sep s, (List.intercalate_splitOn sep).symm, h⟩

/-! ## Empty parts -/

omit [DecidableEq α] in
theorem doubled_cut {a : List α} (ha : sep ∉ a) (b : List α) :
    [sep, sep] <:+: a ++ sep :: b ↔ b.head? = some sep ∨ [sep, sep] <:+: b := by
  induction a with
  | nil =>
    rw [List.nil_append, List.infix_cons_iff, List.cons_prefix_cons]
    cases b with
    | nil => simp
    | cons x b => simp [List.cons_prefix_cons, eq_comm]
  | cons x a ih =>
    rw [List.mem_cons, not_or] at ha
    rw [List.cons_append, List.infix_cons_iff, List.cons_prefix_cons, ih ha.2]
    exact or_iff_right fun h => ha.1 h.1

/-- Every part is non-empty if and only if the text neither starts nor ends
with the separator and has no two of them in a row. -/
theorem parts_ne_nil (s : List α) :
    (∀ p ∈ s.splitOn sep, p ≠ []) ↔
      s ≠ [] ∧ s.head? ≠ some sep ∧ s.getLast? ≠ some sep ∧ ¬ [sep, sep] <:+: s := by
  induction s using first_separator sep with
  | part s h =>
    rw [splitOn_part h, List.forall_mem_singleton]
    refine ⟨fun hne => ⟨hne, ?_, ?_, ?_⟩, fun hall => hall.1⟩
    · intro hh
      exact h (List.mem_of_mem_head? hh)
    · intro hl
      exact h (List.mem_of_mem_getLast? hl)
    · intro hi
      exact h (hi.subset (List.mem_cons_self ..))
  | cut a b ha ih =>
    have hhead : (a ++ sep :: b).head? ≠ some sep ↔ a ≠ [] := by
      cases a with
      | nil => simp
      | cons x a =>
        rw [List.mem_cons, not_or] at ha
        simpa using Ne.symm ha.1
    have hlast : (a ++ sep :: b).getLast? ≠ some sep ↔ b ≠ [] ∧ b.getLast? ≠ some sep := by
      cases b with
      | nil => simp
      | cons x b =>
        rw [List.getLast?_append, List.getLast?_cons_cons]
        simp
    rw [splitOn_cut ha, List.forall_mem_cons, ih, hhead, hlast, doubled_cut ha, not_or]
    constructor
    · rintro ⟨h1, h2, h3, h4, h5⟩
      exact ⟨by simp, h1, ⟨h2, h4⟩, h3, h5⟩
    · rintro ⟨-, h1, ⟨h2, h4⟩, h3, h5⟩
      exact ⟨h1, h2, h3, h4, h5⟩

/-! ## The last part -/

theorem splitOn_last {t : List α} (ht : sep ∉ t) (s : List α) :
    (s ++ sep :: t).splitOn sep = s.splitOn sep ++ [t] := by
  rw [List.splitOn_append_cons_self, splitOn_part ht]

/-- The position of the last `a`. -/
def rfind (a : α) (s : List α) : Option Nat := (Search.find [a] s.reverse).map fun i => s.length - 1 - i

theorem rfind_cases (sep : α) (s : List α) : (sep ∉ s ∧ rfind sep s = none) ∨
    ∃ x t, s = x ++ sep :: t ∧ sep ∉ t ∧ rfind sep s = some x.length := by
  rcases Search.find_singleton_cases sep s.reverse with ⟨hn, hf⟩ | ⟨a, b, hab, ha, hf⟩
  · rw [List.mem_reverse] at hn
    exact Or.inl ⟨hn, by rw [rfind, hf]; rfl⟩
  · have hs : s = b.reverse ++ sep :: a.reverse := by
      rw [← List.reverse_reverse s, hab, List.reverse_append, List.reverse_cons, List.append_assoc]
      rfl
    refine Or.inr ⟨b.reverse, a.reverse, hs, by rwa [List.mem_reverse], ?_⟩
    rw [rfind, hf, Option.map_some]
    congr 1
    rw [hs, List.length_append, List.length_cons, List.length_reverse, List.length_reverse]
    omega

theorem two_parts (s : List α) : 2 ≤ (s.splitOn sep).length ↔ sep ∈ s := by
  by_cases h : sep ∈ s
  · obtain ⟨a, b, rfl, ha⟩ := List.eq_append_cons_of_mem h
    have hne := List.length_pos_of_ne_nil (List.splitOn_ne_nil sep b)
    rw [splitOn_cut ha, List.length_cons]
    exact iff_of_true (by omega) h
  · rw [splitOn_part h]
    exact iff_of_false (by simp) h

end Separated
