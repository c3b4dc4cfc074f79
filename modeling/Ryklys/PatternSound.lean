import Ryklys.Server

/-!
# Route patterns

`MatchPattern` against the segments of pattern and path. A match is one
position by position, its captures are the path's segments at the placeholders,
and put into the pattern they give the path's segments back (`matchPattern_exact`).
-/

namespace Ryklys

open Search

namespace ZvejysServer

/-! ## Segments -/

/-- What successive calls of `std::getline` return; nothing behind a last `/`. -/
def getlines : Nat → Bytes → List Bytes
  | 0, _ => []
  | fuel + 1, s =>
    if s = [] then []
    else
      match find [0x2f] s with
      | some i => s.take i :: getlines fuel (s.drop (i + 1))
      | none => [s]

theorem segments_of_no_slash {s : Bytes} (h : 0x2f ∉ s) : segments s = [s].filter (· ≠ []) := by
  rw [segments, List.splitOn_eq_singleton h]

theorem segments_slash {s : Bytes} (t : Bytes) (h : 0x2f ∉ s) :
    segments (s ++ 0x2f :: t) = [s].filter (· ≠ []) ++ segments t := by
  rw [segments, List.splitOn_append_cons_self_of_not_mem h, ← List.singleton_append, List.filter_append]
  rfl

theorem segments_eq_getlines (fuel : Nat) : ∀ s : Bytes, s.length ≤ fuel →
    segments s = (getlines fuel s).filter (· ≠ []) := by
  induction fuel with
  | zero =>
    intro s h
    rw [List.length_eq_zero_iff.mp (Nat.le_zero.mp h)]
    rfl
  | succ fuel ih =>
    intro s h
    by_cases hnil : s = []
    · rw [hnil]
      rfl
    rw [getlines, if_neg hnil]
    rcases find_singleton_cases 0x2f s with ⟨hn, hf⟩ | ⟨a, b, rfl, hn, hf⟩
    · rw [hf, segments_of_no_slash hn]
    · rw [List.length_append, List.length_cons] at h
      rw [hf, segments_slash b hn, ih b (by omega)]
      simp only [drop_append_sep, List.take_left]
      exact (List.filter_append [a] (getlines fuel b)).symm

theorem mem_segments {s part : Bytes} (h : part ∈ segments s) : part ≠ [] ∧ 0x2f ∉ part := by
  have hsingle : ∀ a : Bytes, 0x2f ∉ a → part ∈ [a].filter (· ≠ []) → part ≠ [] ∧ 0x2f ∉ part := by
    intro a ha hp
    obtain ⟨hp, hne⟩ := List.mem_filter.mp hp
    rw [List.mem_singleton] at hp
    subst hp
    exact ⟨by simpa using hne, ha⟩
  induction hl : s.length using Nat.strong_induction_on generalizing s with
  | _ n ih =>
    rcases find_singleton_cases 0x2f s with ⟨hn, -⟩ | ⟨a, b, rfl, hn, -⟩
    · rw [segments_of_no_slash hn] at h
      exact hsingle s hn h
    · rw [segments_slash b hn, List.mem_append] at h
      rw [List.length_append, List.length_cons] at hl
      rcases h with h | h
      · exact hsingle a hn h
      · exact ih b.length (by omega) h rfl

/-! ## Placeholders -/

def placeholder (name : Bytes) : Bytes := 0x7b :: (name ++ [0x7d])

theorem placeholder_inj {a b : Bytes} : placeholder a = placeholder b ↔ a = b := by
  simp [placeholder]

theorem isPlaceholder_iff {part : Bytes} : isPlaceholder part = true ↔ ∃ name, part = placeholder name := by
  constructor
  · intro h
    rw [isPlaceholder, Bool.and_eq_true, beq_iff_eq, beq_iff_eq] at h
    obtain ⟨hhead, hlast⟩ := h
    cases part with
    | nil => cases hhead
    | cons c t =>
      rw [List.head?_cons, Option.some.injEq] at hhead
      subst hhead
      cases t using List.reverseRecOn with
      | nil => exact absurd hlast (by decide)
      | append_singleton name d =>
        rw [← List.cons_append, List.getLast?_concat, Option.some.injEq] at hlast
        subst hlast
        exact ⟨name, rfl⟩
  · rintro ⟨name, rfl⟩
    rw [isPlaceholder, placeholder, ← List.cons_append, List.getLast?_concat]
    rfl

theorem placeholderName_placeholder (name : Bytes) : placeholderName (placeholder name) = name := by
  simp [placeholderName, placeholder]

/-- The pattern's segments fit the path's, position by position. -/
def Fits (parts : List (Bytes × Bytes)) : Prop := ∀ p ∈ parts, (∃ name, p.1 = placeholder name) ∨ p.1 = p.2

/-- The last placeholder of this name stands against this segment. -/
def LastCapture (name value : Bytes) (parts : List (Bytes × Bytes)) : Prop :=
  ∃ before after, parts = before ++ (placeholder name, value) :: after ∧ ∀ p ∈ after, p.1 ≠ placeholder name

def instantiate (params : StrMap) (part : Bytes) : Bytes :=
  if isPlaceholder part then (params.lookup (placeholderName part)).getD [] else part

theorem lastCapture_cons {name value : Bytes} {p : Bytes × Bytes} {parts : List (Bytes × Bytes)} :
    LastCapture name value (p :: parts) ↔
      LastCapture name value parts ∨ (p = (placeholder name, value) ∧ ∀ q ∈ parts, q.1 ≠ placeholder name) := by
  constructor
  · rintro ⟨before, after, he, hn⟩
    cases before with
    | nil =>
      rw [List.nil_append, List.cons.injEq] at he
      exact Or.inr ⟨he.1, by rwa [he.2]⟩
    | cons q before =>
      rw [List.cons_append, List.cons.injEq] at he
      exact Or.inl ⟨before, after, he.2, hn⟩
  · rintro (⟨before, after, rfl, hn⟩ | ⟨rfl, hn⟩)
    · exact ⟨p :: before, after, rfl, hn⟩
    · exact ⟨[], parts, rfl, hn⟩

theorem matchParts_fst (parts : List (Bytes × Bytes)) : ∀ params : StrMap,
    (matchParts parts params).1 = true ↔ Fits parts := by
  induction parts with
  | nil => intro params; simp [matchParts, Fits]
  | cons p parts ih =>
    intro params
    obtain ⟨a, b⟩ := p
    rw [Fits, List.forall_mem_cons, ← Fits, matchParts, ← isPlaceholder_iff]
    by_cases hp : isPlaceholder a = true
    · simp [hp, ih]
    rw [if_neg hp]
    by_cases hab : a = b
    · simp [hab, ih]
    · simp [hp, hab]

/-- A name captured by none of the parts keeps what it had. -/
theorem lookup_matchParts (name value : Bytes) (parts : List (Bytes × Bytes)) : ∀ params : StrMap, Fits parts →
    ((matchParts parts params).2.lookup name = some value ↔
      LastCapture name value parts ∨ (∀ p ∈ parts, p.1 ≠ placeholder name) ∧ params.lookup name = some value) := by
  induction parts with
  | nil => intro params _; simp [matchParts, LastCapture]
  | cons p parts ih =>
    intro params hf
    obtain ⟨a, b⟩ := p
    rw [Fits, List.forall_mem_cons, ← Fits] at hf
    rw [lastCapture_cons, List.forall_mem_cons, matchParts]
    by_cases hp : isPlaceholder a = true
    · obtain ⟨name', rfl⟩ := isPlaceholder_iff.mp hp
      rw [if_pos hp, ih _ hf.2, placeholderName_placeholder]
      by_cases hname : name = name'
      · subst hname
        simp [and_comm]
      · have hne : placeholder name' ≠ placeholder name := fun h => hname (placeholder_inj.mp h).symm
        rw [AList.lookup_insert_ne hname]
        simp [hne]
    · have hab : a = b := hf.1.resolve_left fun h => hp (isPlaceholder_iff.mpr h)
      have hne : a ≠ placeholder name := fun h => hp (isPlaceholder_iff.mpr ⟨name, h⟩)
      rw [if_neg hp, if_neg (not_not.mpr hab), ih _ hf.2]
      simp [hne]

theorem lookup_matchParts_empty {name value : Bytes} {parts : List (Bytes × Bytes)} (hf : Fits parts) :
    (matchParts parts ∅).2.lookup name = some value ↔ LastCapture name value parts := by
  rw [lookup_matchParts name value parts ∅ hf]
  simp

theorem lastCapture_of_mem {name value : Bytes} {parts : List (Bytes × Bytes)}
    (hd : ((parts.map Prod.fst).filter isPlaceholder).Nodup) (hm : (placeholder name, value) ∈ parts) :
    LastCapture name value parts := by
  obtain ⟨before, after, rfl⟩ := List.append_of_mem hm
  refine ⟨before, after, rfl, ?_⟩
  intro p hp he
  have hph : isPlaceholder (placeholder name) = true := isPlaceholder_iff.mpr ⟨name, rfl⟩
  rw [List.map_append, List.map_cons, List.filter_append, List.filter_cons_of_pos hph, List.nodup_append] at hd
  refine (List.nodup_cons.mp hd.2.1).1 (List.mem_filter.mpr ⟨?_, hph⟩)
  exact List.mem_map.mpr ⟨p, hp, he⟩

theorem map_instantiate {parts : List (Bytes × Bytes)} (hf : Fits parts)
    (hd : ((parts.map Prod.fst).filter isPlaceholder).Nodup) :
    (parts.map Prod.fst).map (instantiate (matchParts parts ∅).2) = parts.map Prod.snd := by
  rw [List.map_map]
  refine List.map_congr_left fun p hp => ?_
  obtain ⟨a, b⟩ := p
  rw [Function.comp_apply, instantiate]
  by_cases ha : isPlaceholder a = true
  · obtain ⟨name, rfl⟩ := isPlaceholder_iff.mp ha
    rw [if_pos ha, placeholderName_placeholder, (lookup_matchParts_empty hf).mpr (lastCapture_of_mem hd hp)]
    rfl
  · rw [if_neg ha]
    exact (hf _ hp).resolve_left fun h => ha (isPlaceholder_iff.mpr h)

/-- **Matching.** A pattern matches position by position; the parameters are the
path's segments at the last placeholder of each name, single components; with
distinct placeholders they give the path back. -/
theorem matchPattern_exact (pattern path : Bytes) :
    ((matchPattern pattern path ∅).1 = true ↔
      (segments pattern).length = (segments path).length ∧ Fits ((segments pattern).zip (segments path))) ∧
    ((matchPattern pattern path ∅).1 = true →
      (∀ name value, (matchPattern pattern path ∅).2.lookup name = some value ↔
        LastCapture name value ((segments pattern).zip (segments path))) ∧
      (∀ name value, (matchPattern pattern path ∅).2.lookup name = some value → value ≠ [] ∧ 0x2f ∉ value) ∧
      (((segments pattern).filter isPlaceholder).Nodup →
        (segments pattern).map (instantiate (matchPattern pattern path ∅).2) = segments path)) := by
  unfold matchPattern
  by_cases hl : (segments pattern).length = (segments path).length
  · simp only [hl, ne_eq, not_true, if_false, true_and]
    refine ⟨matchParts_fst _ _, fun hm => ?_⟩
    have hf := (matchParts_fst _ _).mp hm
    refine ⟨fun name value => lookup_matchParts_empty hf, ?_, fun hd => ?_⟩
    · intro name value hv
      obtain ⟨before, after, he, -⟩ := (lookup_matchParts_empty hf).mp hv
      have hmem : (placeholder name, value) ∈ (segments pattern).zip (segments path) := by simp [he]
      exact mem_segments (List.of_mem_zip hmem).2
    · have hfst : ((segments pattern).zip (segments path)).map Prod.fst = segments pattern :=
        List.map_fst_zip (Nat.le_of_eq hl)
      have hsnd : ((segments pattern).zip (segments path)).map Prod.snd = segments path :=
        List.map_snd_zip (Nat.le_of_eq hl.symm)
      have h := map_instantiate hf (by rwa [hfst])
      rwa [hfst, hsnd] at h
  · simp [hl]

example : (matchPattern (bytes "/stream//{id}/") (bytes "stream/ab") ∅).2.entries = [⟨bytes "id", bytes "ab"⟩] := by
  decide

end ZvejysServer

end Ryklys
