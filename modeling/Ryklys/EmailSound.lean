import Ryklys.Validation

/-!
# ValidateEmail accepts its grammar

The checks of `validateEmail`, one after another, against what an address is: a
local part and a domain, each in parts with dots between them (`Address`). The
loop over the labels goes part by part (`labelLoop_iff`); the checks on dots
say together that no part is empty.
-/

namespace Ryklys

open Search Separated

namespace validation

/-! ## The grammar -/

def isAtomChar (c : UInt8) : Bool := isAlnum c || c == 95 || c == 43 || c == 45

def isLabelChar (c : UInt8) : Bool := isAlnum c || c == 45

def Atom (a : Bytes) : Prop := a ≠ [] ∧ ∀ c ∈ a, isAtomChar c = true

structure Label (l : Bytes) : Prop where
  length : 1 ≤ l.length ∧ l.length ≤ 63
  chars : ∀ c ∈ l, isLabelChar c = true
  edges : l.head? ≠ some 45 ∧ l.getLast? ≠ some 45

structure LocalPart (loc : Bytes) : Prop where
  length : 1 ≤ loc.length ∧ loc.length ≤ 64
  atoms : ∃ atoms, loc = [46].intercalate atoms ∧ ∀ a ∈ atoms, Atom a

def Domain (domain : Bytes) : Prop :=
  ∃ labels, 2 ≤ labels.length ∧ domain = [46].intercalate labels ∧ (∀ l ∈ labels, Label l) ∧
    ∀ l ∈ labels.getLast?, 2 ≤ l.length

def Address (email : Bytes) : Prop :=
  email.length ≤ 254 ∧ ∃ loc domain, email = loc ++ bytes "@" ++ domain ∧ LocalPart loc ∧ Domain domain

/-! ## The grammar, part by part -/

theorem dot_not_mem_atom {a : Bytes} (h : Atom a) : 46 ∉ a := fun hm => absurd (h.2 46 hm) (by decide)

theorem dot_not_mem_label {l : Bytes} (h : Label l) : 46 ∉ l := fun hm => absurd (h.chars 46 hm) (by decide)

theorem localPart_iff (loc : Bytes) :
    LocalPart loc ↔ (1 ≤ loc.length ∧ loc.length ≤ 64) ∧ ∀ a ∈ loc.splitOn 46, Atom a := by
  rw [← joined_iff (fun a => dot_not_mem_atom) loc]
  constructor
  · rintro ⟨hlen, atoms, he, ha⟩
    refine ⟨hlen, atoms, ?_, he, ha⟩
    rintro rfl
    rw [he] at hlen
    exact absurd hlen.1 (by decide)
  · rintro ⟨hlen, atoms, -, he, ha⟩
    exact ⟨hlen, atoms, he, ha⟩

theorem domain_iff (domain : Bytes) : Domain domain ↔ (∀ l ∈ domain.splitOn 46, Label l) ∧ 46 ∈ domain ∧
    ∀ l ∈ (domain.splitOn 46).getLast?, 2 ≤ l.length := by
  rw [← two_parts]
  constructor
  · rintro ⟨labels, htwo, rfl, hl, hlast⟩
    have hne : labels ≠ [] := by
      rintro rfl
      exact absurd htwo (by decide)
    rw [List.splitOn_intercalate 46 (fun l h => dot_not_mem_label (hl l h)) hne]
    exact ⟨hl, htwo, hlast⟩
  · rintro ⟨hl, htwo, hlast⟩
    exact ⟨domain.splitOn 46, htwo, (List.intercalate_splitOn 46).symm, hl, hlast⟩

/-! ## The checks -/

theorem refused {c : Prop} [Decidable c] {err : Bytes} {r : Option Bytes} :
    (if c then some err else r) = none ↔ ¬ c ∧ r = none := by
  split <;> simp [*]

theorem accepted {b : Bool} {err : Bytes} {r : Option Bytes} :
    (if b = true then r else some err) = none ↔ b = true ∧ r = none := by
  split <;> simp [*]

theorem doubled_iff (s : Bytes) : ¬ (find (bytes "..") s).isSome = true ↔ ¬ [46, 46] <:+: s := by
  rw [find_isSome]
  rfl

theorem localChars_iff (loc : Bytes) :
    loc.all isLocalChar = true ↔ ∀ a ∈ loc.splitOn 46, ∀ c ∈ a, isAtomChar c = true := by
  rw [List.all_eq_true, forall_mem_parts]
  have h : ∀ c : UInt8, isLocalChar c = true ↔ (c ≠ 46 → isAtomChar c = true) := by
    intro c
    by_cases hc : c = 46
    · subst hc
      decide
    · simp [isLocalChar, isAtomChar, hc]
      grind
  exact forall₂_congr fun c _ => h c

theorem domainChars_iff (domain : Bytes) :
    domain.all isDomainChar = true ↔ ∀ l ∈ domain.splitOn 46, ∀ c ∈ l, isLabelChar c = true := by
  rw [List.all_eq_true, forall_mem_parts]
  have h : ∀ c : UInt8, isDomainChar c = true ↔ (c ≠ 46 → isLabelChar c = true) := by
    intro c
    by_cases hc : c = 46
    · subst hc
      decide
    · simp [isDomainChar, isLabelChar, hc]
  exact forall₂_congr fun c _ => h c

theorem checkLocal_iff (loc : Bytes) : checkLocal loc = none ↔ LocalPart loc := by
  rw [localPart_iff, checkLocal, refused, refused, refused, accepted, doubled_iff, localChars_iff, not_or, not_or]
  have hparts : (∀ a ∈ loc.splitOn 46, a ≠ []) ↔ _ := parts_ne_nil loc
  constructor
  · rintro ⟨⟨hne, hlen⟩, ⟨hhead, hlast⟩, hdots, hchars, -⟩
    have hpos := List.length_pos_of_ne_nil hne
    refine ⟨⟨hpos, by omega⟩, fun a ha => ⟨?_, hchars a ha⟩⟩
    exact hparts.mpr ⟨hne, hhead, hlast, hdots⟩ a ha
  · rintro ⟨hlen, hatoms⟩
    obtain ⟨hne, hhead, hlast, hdots⟩ := hparts.mp fun a ha => (hatoms a ha).1
    exact ⟨⟨hne, by omega⟩, ⟨hhead, hlast⟩, hdots, fun a ha => (hatoms a ha).2, rfl⟩

/-! ## The labels -/

def LabelPasses (l : Bytes) : Prop := (l ≠ [] ∧ l.length ≤ 63) ∧ l.head? ≠ some 45 ∧ l.getLast? ≠ some 45

theorem label_checks {l : Bytes} {r : Option Bytes} :
    (if l = [] ∨ l.length > 63 then some invalidEmail
      else if l.head? = some 45 ∨ l.getLast? = some 45 then some invalidEmail else r) = none ↔
      LabelPasses l ∧ r = none := by
  simp only [refused, not_or, Nat.not_lt, LabelPasses, and_assoc, ne_eq]

theorem labelLoop_end {domain : Bytes} {pos : Nat} (h : domain.length ≤ pos) (fuel : Nat) :
    labelLoop domain fuel pos = none := by
  cases fuel with
  | zero => rfl
  | succ fuel => rw [labelLoop, if_neg (Nat.not_lt.mpr h)]

theorem labelLoop_pass {domain : Bytes} {pos dot : Nat} (h : pos < domain.length)
    (hdot : (findFrom [46] domain pos).getD domain.length = dot) (fuel : Nat) :
    labelLoop domain (fuel + 1) pos = none ↔
      LabelPasses ((domain.drop pos).take (dot - pos)) ∧ labelLoop domain fuel (dot + 1) = none := by
  subst hdot
  rw [labelLoop, if_pos h]
  exact label_checks

theorem lt_of_drop {domain s : Bytes} {pos : Nat} (h : domain.drop pos = s) (hne : s ≠ []) : pos < domain.length := by
  rw [← h, ne_eq, List.drop_eq_nil_iff] at hne
  omega

/-- From a position on, the loop checks the parts of what is left, which does
not end with a dot. -/
theorem labelLoop_iff (domain s : Bytes) : ∀ fuel pos, domain.drop pos = s → s ≠ [] → s.getLast? ≠ some 46 →
    s.length ≤ fuel → (labelLoop domain fuel pos = none ↔ ∀ l ∈ s.splitOn 46, LabelPasses l) := by
  induction s using first_separator (46 : UInt8) with
  | part s hs =>
    intro fuel pos hd hne _ hf
    have hpos := Nat.lt_of_lt_of_le (List.length_pos_of_ne_nil hne) hf
    obtain ⟨fuel, rfl⟩ := Nat.exists_eq_succ_of_ne_zero (Nat.ne_of_gt hpos)
    have hdot : (findFrom [46] domain pos).getD domain.length = domain.length := by
      rw [findFrom, hd, find_singleton_none hs, Option.map_none, Option.getD_none]
    have hlabel : s.take (domain.length - pos) = s := by
      rw [← List.length_drop, hd, List.take_length]
    rw [labelLoop_pass (lt_of_drop hd hne) hdot, hd, hlabel, splitOn_part hs, List.forall_mem_singleton,
      labelLoop_end (Nat.le_succ _)]
    exact and_iff_left rfl
  | cut a b ha ih =>
    intro fuel pos hd hne hlast hf
    have hb : b ≠ [] := by
      rintro rfl
      simp at hlast
    have hblast : b.getLast? ≠ some 46 := by
      rw [List.getLast?_append] at hlast
      cases b with
      | nil => exact absurd rfl hb
      | cons x b => simpa using hlast
    have hpos := Nat.lt_of_lt_of_le (List.length_pos_of_ne_nil hne) hf
    obtain ⟨fuel, rfl⟩ := Nat.exists_eq_succ_of_ne_zero (Nat.ne_of_gt hpos)
    have hdot : (findFrom [46] domain pos).getD domain.length = a.length + pos := by
      rw [findFrom, hd, find_singleton b ha, Option.map_some, Option.getD_some]
    have hlabel : (a ++ 46 :: b).take (a.length + pos - pos) = a := by
      rw [Nat.add_sub_cancel, List.take_left]
    have hrest : domain.drop (a.length + pos + 1) = b := by
      rw [show a.length + pos + 1 = pos + (a.length + 1) by omega, ← List.drop_drop, hd, drop_append_sep]
    rw [List.length_append, List.length_cons] at hf
    rw [labelLoop_pass (lt_of_drop hd hne) hdot, hd, hlabel, splitOn_cut ha, List.forall_mem_cons,
      ih fuel _ hrest hb hblast (by omega)]

theorem label_iff (l : Bytes) : Label l ↔ LabelPasses l ∧ ∀ c ∈ l, isLabelChar c = true := by
  constructor
  · rintro ⟨⟨hpos, hlen⟩, hchars, hedges⟩
    exact ⟨⟨⟨List.length_pos_iff.mp hpos, hlen⟩, hedges⟩, hchars⟩
  · rintro ⟨⟨⟨hne, hlen⟩, hedges⟩, hchars⟩
    exact ⟨⟨List.length_pos_of_ne_nil hne, hlen⟩, hchars, hedges⟩

theorem labels_iff (domain : Bytes) : (∀ l ∈ domain.splitOn 46, Label l) ↔
    (∀ l ∈ domain.splitOn 46, LabelPasses l) ∧ ∀ l ∈ domain.splitOn 46, ∀ c ∈ l, isLabelChar c = true := by
  simp only [label_iff]
  exact ⟨fun h => ⟨fun l hl => (h l hl).1, fun l hl => (h l hl).2⟩, fun h l hl => ⟨h.1 l hl, h.2 l hl⟩⟩

/-- The first label begins the domain and the last one ends it. -/
theorem domain_edges {domain : Bytes} (h : ∀ l ∈ domain.splitOn 46, LabelPasses l) :
    domain.head? ≠ some 45 ∧ domain.getLast? ≠ some 45 := by
  constructor
  · rcases find_singleton_cases 46 domain with ⟨hn, -⟩ | ⟨a, b, rfl, ha, -⟩
    · rw [splitOn_part hn, List.forall_mem_singleton] at h
      exact h.2.1
    · rw [splitOn_cut ha, List.forall_mem_cons] at h
      rw [List.head?_append_of_ne_nil _ h.1.1.1]
      exact h.1.2.1
  · rcases rfind_cases 46 domain with ⟨hn, -⟩ | ⟨x, t, rfl, ht, -⟩
    · rw [splitOn_part hn, List.forall_mem_singleton] at h
      exact h.2.2
    · rw [splitOn_last ht, List.forall_mem_append, List.forall_mem_singleton] at h
      have hlast : (x ++ 46 :: t).getLast? = t.getLast? := by
        rw [List.append_cons, List.getLast?_append_of_ne_nil _ h.2.1.1]
      rw [hlast]
      exact h.2.2.2

theorem checkDomain_iff {domain : Bytes} (hlen : domain.length ≤ 253) : checkDomain domain = none ↔ Domain domain := by
  have hparts : (∀ l ∈ domain.splitOn 46, l ≠ []) ↔ _ := parts_ne_nil domain
  rw [domain_iff, labels_iff, checkDomain, refused, refused, refused, refused, doubled_iff, not_or, not_or, not_or]
  rcases rfind_cases 46 domain with ⟨hn, hr⟩ | ⟨x, t, hd, ht, hr⟩
  · rw [hr]
    constructor
    · rintro ⟨-, -, -, -, h⟩
      cases h
    · rintro ⟨-, h, -⟩
      exact absurd h hn
  · have htail : domain.drop (x.length + 1) = t := by rw [hd, drop_append_sep]
    have hlast : (domain.splitOn 46).getLast? = some t := by rw [hd, splitOn_last ht, List.getLast?_concat]
    have hmem : 46 ∈ domain := by simp [hd]
    rw [hr]
    simp only
    rw [refused, accepted, domainChars_iff, htail, hlast]
    constructor
    · rintro ⟨⟨hne, -⟩, -, ⟨hhead, hl⟩, hdots, htld, hchars, hloop⟩
      have hlabels := (labelLoop_iff domain domain domain.length 0 rfl hne hl (Nat.le_refl _)).mp hloop
      exact ⟨⟨hlabels, hchars⟩, hmem, fun l he => Option.mem_some_iff.mp he ▸ Nat.not_lt.mp htld⟩
    · rintro ⟨⟨hlabels, hchars⟩, -, htld⟩
      obtain ⟨hne, hhead, hl, hdots⟩ := hparts.mp fun l h => (hlabels l h).1.1
      have hloop := (labelLoop_iff domain domain domain.length 0 rfl hne hl (Nat.le_refl _)).mpr hlabels
      exact ⟨⟨hne, by omega⟩, domain_edges hlabels, ⟨hhead, hl⟩, hdots, Nat.not_lt.mpr (htld t rfl), hchars, hloop⟩

/-! ## The address -/

theorem at_not_mem_local {loc : Bytes} (h : LocalPart loc) : 64 ∉ loc := by
  intro hm
  have hchars := (forall_mem_parts (Q := fun c => isAtomChar c = true) loc).mp fun a ha =>
    (((localPart_iff loc).mp h).2 a ha).2
  exact absurd (hchars 64 hm (by decide)) (by decide)

theorem at_not_mem_domain {domain : Bytes} (h : Domain domain) : 64 ∉ domain := by
  intro hm
  have hchars := (forall_mem_parts (Q := fun c => isLabelChar c = true) domain).mp fun l hl =>
    (((domain_iff domain).mp h).1 l hl).chars
  exact absurd (hchars 64 hm (by decide)) (by decide)

theorem validateEmail_without {email : Bytes} (h : 64 ∉ email) : validateEmail email ≠ none := by
  rw [validateEmail, ne_eq, refused, refused]
  rintro ⟨-, -, hf⟩
  rw [show bytes "@" = [64] from rfl, find_singleton_none h] at hf
  cases hf

theorem validateEmail_at {loc domain : Bytes} (h : 64 ∉ loc) : validateEmail (loc ++ 64 :: domain) = none ↔
    (loc ++ 64 :: domain).length ≤ 254 ∧ 64 ∉ domain ∧ checkLocal loc = none ∧ checkDomain domain = none := by
  have hsecond : (findFrom [64] (loc ++ 64 :: domain) (loc.length + 1)).isSome = true ↔ 64 ∈ domain := by
    rw [findFrom, drop_append_sep, Option.isSome_map, find_isSome, List.singleton_infix_iff]
  rw [validateEmail, refused, refused, show bytes "@" = [64] from rfl, find_singleton domain h]
  simp only
  rw [refused, hsecond, List.take_left, drop_append_sep, Nat.not_lt]
  cases checkLocal loc with
  | none => simp
  | some err => simp

/-- **ValidateEmail accepts its grammar**, and nothing else. -/
theorem validateEmail_iff (email : Bytes) : validateEmail email = none ↔ Address email := by
  constructor
  · intro h
    rcases find_singleton_cases 64 email with ⟨hn, -⟩ | ⟨loc, domain, rfl, hloc, -⟩
    · exact absurd h (validateEmail_without hn)
    · obtain ⟨hlen, -, hl, hd⟩ := (validateEmail_at hloc).mp h
      have hpart := (checkLocal_iff loc).mp hl
      have hpos := hpart.length.1
      have hdlen : domain.length ≤ 253 := by
        rw [List.length_append, List.length_cons] at hlen
        omega
      refine ⟨hlen, loc, domain, ?_, hpart, (checkDomain_iff hdlen).mp hd⟩
      rw [List.append_assoc]
      rfl
  · rintro ⟨hlen, loc, domain, rfl, hl, hd⟩
    have hpos := hl.length.1
    rw [List.append_assoc] at hlen ⊢
    change (loc ++ 64 :: domain).length ≤ 254 at hlen
    change validateEmail (loc ++ 64 :: domain) = none
    rw [validateEmail_at (at_not_mem_local hl), checkLocal_iff]
    rw [List.length_append, List.length_cons] at hlen ⊢
    exact ⟨hlen, at_not_mem_domain hd, hl, (checkDomain_iff (by omega)).mpr hd⟩

end validation

end Ryklys
