import Mathlib.Data.Finset.Card
import Mathlib.Data.List.Nodup

/-!
# Leases on a queue of idle items

A table of items: the idle ones queue up, and a live lease holds one. Taking,
exchanging and handing back keep the number of items, and keep every item in
one place (`Conserved`).
-/

structure Leases (ι α : Type*) where
  idle : List α
  live : Finset ι
  item : ι → α

namespace Leases

variable {ι α : Type*} [DecidableEq ι]

def take (s : Leases ι α) (l : ι) (a : α) (idle : List α) : Leases ι α :=
  { idle, live := insert l s.live, item := Function.update s.item l a }

def exchange (s : Leases ι α) (l : ι) (a : α) : Leases ι α := { s with item := Function.update s.item l a }

def handBack (s : Leases ι α) (l : ι) : Leases ι α :=
  { s with idle := s.idle ++ [s.item l], live := s.live.erase l }

/-- `n` items, each of them idle or with one lease. -/
structure Conserved (n : Nat) (s : Leases ι α) : Prop where
  count : s.idle.length + s.live.card = n
  nodup : s.idle.Nodup
  exclusive : ∀ l ∈ s.live, ∀ l' ∈ s.live, s.item l = s.item l' → l = l'
  not_idle : ∀ l ∈ s.live, s.item l ∉ s.idle

def All (P : α → Prop) (s : Leases ι α) : Prop := (∀ a ∈ s.idle, P a) ∧ ∀ l ∈ s.live, P (s.item l)

variable {n : Nat} {s : Leases ι α} {l : ι} {a : α}

@[simp] theorem take_item_self (idle : List α) : (s.take l a idle).item l = a := Function.update_self _ _ _

theorem take_item_of_ne {l' : ι} (idle : List α) (h : l' ≠ l) : (s.take l a idle).item l' = s.item l' :=
  Function.update_of_ne h _ _

@[simp] theorem exchange_item_self : (s.exchange l a).item l = a := Function.update_self _ _ _

theorem exchange_item_of_ne {l' : ι} (h : l' ≠ l) : (s.exchange l a).item l' = s.item l' :=
  Function.update_of_ne h _ _

theorem take_conserved {idle : List α} (hs : s.Conserved n) (hi : s.idle = a :: idle) (hl : l ∉ s.live) :
    (s.take l a idle).Conserved n := by
  obtain ⟨hcount, hnodup, hex, hidle⟩ := hs
  rw [hi] at hnodup hcount hidle
  have hne : ∀ l' ∈ s.live, l' ≠ l := fun l' hl' h => hl (h ▸ hl')
  refine ⟨?_, hnodup.of_cons, ?_, ?_⟩
  · simp only [take, Finset.card_insert_of_notMem hl]
    simp only [List.length_cons] at hcount
    omega
  · intro l₁ h₁ l₂ h₂ h
    rw [take, Finset.mem_insert] at h₁ h₂
    -- the item taken was idle, so no other lease has it
    rcases h₁ with rfl | h₁ <;> rcases h₂ with rfl | h₂
    · rfl
    · rw [take_item_self, take_item_of_ne idle (hne _ h₂)] at h
      exact absurd (h ▸ List.mem_cons_self) (hidle l₂ h₂)
    · rw [take_item_self, take_item_of_ne idle (hne _ h₁)] at h
      exact absurd (h ▸ List.mem_cons_self) (hidle l₁ h₁)
    · rw [take_item_of_ne idle (hne _ h₁), take_item_of_ne idle (hne _ h₂)] at h
      exact hex l₁ h₁ l₂ h₂ h
  · intro l' h'
    rw [take, Finset.mem_insert] at h'
    rcases h' with rfl | h'
    · rw [take_item_self]
      exact (List.nodup_cons.mp hnodup).1
    · rw [take_item_of_ne idle (hne _ h')]
      exact fun h => hidle l' h' (List.mem_cons_of_mem _ h)

theorem exchange_conserved (hs : s.Conserved n) (hi : a ∉ s.idle) (ha : ∀ l ∈ s.live, s.item l ≠ a) :
    (s.exchange l a).Conserved n := by
  obtain ⟨hcount, hnodup, hex, hidle⟩ := hs
  refine ⟨hcount, hnodup, ?_, ?_⟩
  · intro l₁ h₁ l₂ h₂ h
    by_cases e₁ : l₁ = l <;> by_cases e₂ : l₂ = l
    · rw [e₁, e₂]
    · rw [e₁, exchange_item_self, exchange_item_of_ne e₂] at h
      exact absurd h.symm (ha l₂ h₂)
    · rw [e₂, exchange_item_self, exchange_item_of_ne e₁] at h
      exact absurd h (ha l₁ h₁)
    · rw [exchange_item_of_ne e₁, exchange_item_of_ne e₂] at h
      exact hex l₁ h₁ l₂ h₂ h
  · intro l' h'
    by_cases e : l' = l
    · rwa [e, exchange_item_self]
    · rw [exchange_item_of_ne e]
      exact hidle l' h'

theorem handBack_conserved (hs : s.Conserved n) (hl : l ∈ s.live) : (s.handBack l).Conserved n := by
  obtain ⟨hcount, hnodup, hex, hidle⟩ := hs
  have hpos : 0 < s.live.card := Finset.card_pos.mpr ⟨l, hl⟩
  refine ⟨?_, ?_, ?_, ?_⟩
  · simp only [handBack, List.length_append, List.length_singleton, Finset.card_erase_of_mem hl]
    omega
  · simp only [handBack]
    rw [List.nodup_append_comm, List.singleton_append, List.nodup_cons]
    exact ⟨hidle l hl, hnodup⟩
  · intro l₁ h₁ l₂ h₂ h
    exact hex l₁ (Finset.mem_of_mem_erase h₁) l₂ (Finset.mem_of_mem_erase h₂) h
  · intro l' h' hmem
    have hlive := Finset.mem_of_mem_erase h'
    rcases List.mem_append.mp hmem with hmem | hmem
    · exact hidle l' hlive hmem
    · exact Finset.ne_of_mem_erase h' (hex l' hlive l hl (List.mem_singleton.mp hmem))

/-! ## What kind of items there are -/

variable {P : α → Prop}

theorem take_all {idle : List α} (hs : s.All P) (hi : s.idle = a :: idle) : (s.take l a idle).All P := by
  rw [All, hi] at hs
  refine ⟨fun b hb => hs.1 b (List.mem_cons_of_mem _ hb), ?_⟩
  intro l' h'
  by_cases e : l' = l
  · rw [e, take_item_self]
    exact hs.1 a List.mem_cons_self
  · rw [take_item_of_ne idle e]
    exact hs.2 l' (Finset.mem_of_mem_insert_of_ne h' e)

theorem exchange_all (hs : s.All P) (ha : P a) : (s.exchange l a).All P := by
  refine ⟨hs.1, ?_⟩
  intro l' h'
  by_cases e : l' = l
  · rwa [e, exchange_item_self]
  · rw [exchange_item_of_ne e]
    exact hs.2 l' h'

theorem handBack_all (hs : s.All P) (hl : l ∈ s.live) : (s.handBack l).All P := by
  refine ⟨?_, fun l' h' => hs.2 l' (Finset.mem_of_mem_erase h')⟩
  intro b hb
  rcases List.mem_append.mp hb with hb | hb
  · exact hs.1 b hb
  · rw [List.mem_singleton.mp hb]
    exact hs.2 l hl

end Leases
