import Mathlib.Algebra.BigOperators.Group.Finset.Piecewise
import Mathlib.Data.Fintype.Basic

/-!
# A queue of items behind a mutex and a condition variable

Any finite number of threads, each in a phase of its own; its `Role` is what
the phase means for the monitor. A thread that finds no item waits on the
condition variable, one that puts an item back notifies once, while it has the
mutex or later. A step of one thread keeps the invariant when it is a `Move`; a
notification moves a blocked thread along (`Inv.notify`).
-/

namespace Monitor

inductive Role where
  -- neither has the mutex nor waits
  | aside
  | holding
  -- has the mutex, and found no item
  | willWait
  | blocked
  -- awakened, still to look again; `rechecking` has the mutex for it
  | awake
  | rechecking
  -- has put an item back, still to notify; `putBack` has the mutex
  | putBack
  | notifying
  deriving DecidableEq, Repr

namespace Role

def holds : Role → Bool
  | holding | willWait | rechecking | putBack => true
  | _ => false

def awakened : Role → Bool
  | awake | rechecking => true
  | _ => false

def notifies : Role → Bool
  | putBack | notifying => true
  | _ => false

end Role

structure State (ι α β : Type*) where
  items : List β
  mutex : Option ι
  phase : ι → α

variable {ι α β : Type*}

def State.move [DecidableEq ι] (s : State ι α β) (t : ι) (b : α) (mutex : Option ι) (items : List β) : State ι α β :=
  ⟨items, mutex, Function.update s.phase t b⟩

@[simp] theorem State.move_phase [DecidableEq ι] (s : State ι α β) (t : ι) (b : α) (mutex : Option ι)
    (items : List β) : (s.move t b mutex items).phase = Function.update s.phase t b := rfl

/-! ## Counting threads -/

section
variable [Fintype ι]

def count (p : α → Bool) (phase : ι → α) : Nat := (Finset.univ.filter fun t => p (phase t) = true).card

theorem count_eq_sum (p : α → Bool) (phase : ι → α) : count p phase = ∑ t, (p (phase t)).toNat := by
  rw [count, Finset.card_filter]
  refine Finset.sum_congr rfl fun t _ => ?_
  cases p (phase t) <;> rfl

theorem count_eq_zero {p : α → Bool} {phase : ι → α} (h : ∀ t, p (phase t) = false) : count p phase = 0 := by
  rw [count, Finset.card_eq_zero, Finset.filter_eq_empty_iff]
  intro t _
  simp [h t]

theorem count_update [DecidableEq ι] (p : α → Bool) (phase : ι → α) (t : ι) (b : α) :
    count p (Function.update phase t b) + (p (phase t)).toNat = count p phase + (p b).toNat := by
  have happ : (fun u => (p (Function.update phase t b u)).toNat) =
      Function.update (fun u => (p (phase u)).toNat) t (p b).toNat := by
    funext u
    exact Function.apply_update (fun _ a => (p a).toNat) phase t b u
  rw [count_eq_sum, count_eq_sum, happ, Finset.sum_update_of_mem (Finset.mem_univ t),
    ← Finset.add_sum_erase _ _ (Finset.mem_univ t), Finset.sdiff_singleton_eq_erase]
  omega

end

/-! ## The invariant -/

section
variable [Fintype ι] (role : α → Role) (s : State ι α β)

def blocked : Nat := count (fun a => decide (role a = .blocked)) s.phase
def awakened : Nat := count (fun a => (role a).awakened) s.phase
def notifiers : Nat := count (fun a => (role a).notifies) s.phase

/-- Whoever is blocked has a notification to come or an awakened thread for every item there is. -/
def NoLostWakeup : Prop := 0 < blocked role s → s.items.length ≤ notifiers role s + awakened role s

/-- `slack` threads more than that; in between, a notification has one to spare. -/
structure Inv (slack : Nat) : Prop where
  covered : 0 < blocked role s → s.items.length + slack ≤ notifiers role s + awakened role s
  owner : ∀ t, (role (s.phase t)).holds = true → s.mutex = some t
  empty : ∀ t, role (s.phase t) = .willWait → s.items = []

end

section
variable (role : α → Role) (s : State ι α β)

/-- What a step of thread `t` to the phase `b` may do to the mutex, the items and the slack. -/
structure Move (slack slack' : Nat) (t : ι) (b : α) (mutex : Option ι) (items : List β) : Prop where
  owner : (role b).holds = true → mutex = some t
  locked : mutex = s.mutex ∨ s.mutex = none ∨ (role (s.phase t)).holds = true
  empty : role b = .willWait → items = []
  exclusive : items = s.items ∨ (role (s.phase t)).holds = true
  covered : (items = [] ∧ slack' = 0) ∨ (role b ≠ .blocked ∧ ∀ u, role (s.phase u) ≠ .blocked) ∨
    (role b = .blocked → role (s.phase t) = .blocked) ∧
    items.length + slack' + (role (s.phase t)).notifies.toNat + (role (s.phase t)).awakened.toNat ≤
      s.items.length + slack + (role b).notifies.toNat + (role b).awakened.toNat

end

variable [Fintype ι] {role : α → Role} {s : State ι α β} {slack slack' : Nat}

theorem Inv.noLostWakeup (h : Inv role s slack) : NoLostWakeup role s := by
  intro hb
  have := h.covered hb
  omega

theorem NoLostWakeup.not_stuck (h : NoLostWakeup role s) :
    ¬ (0 < blocked role s ∧ s.items ≠ [] ∧ notifiers role s = 0 ∧ awakened role s = 0) := by
  intro ⟨hb, hi, hn, ha⟩
  have := h hb
  have := List.length_pos_of_ne_nil hi
  omega

theorem inv_start (items : List β) {a : α} (ha : role a = .aside) : 
    Inv role (⟨items, none, fun _ => a⟩ : State ι α β) 0 := by
  refine ⟨?_, ?_, ?_⟩
  · intro h
    rw [blocked, count_eq_zero fun _ => by simp [ha]] at h
    omega
  · intro t h
    simp [ha, Role.holds] at h
  · intro t h
    simp [ha] at h

theorem Inv.unique (h : Inv role s slack) {t u : ι} (ht : (role (s.phase t)).holds = true)
    (hu : (role (s.phase u)).holds = true) : t = u :=
  Option.some.inj ((h.owner t ht).symm.trans (h.owner u hu))

variable [DecidableEq ι]

theorem Inv.move (h : Inv role s slack) {t : ι} {b : α} {mutex : Option ι} {items : List β}
    (hm : Move role s slack slack' t b mutex items) : Inv role (s.move t b mutex items) slack' := by
  refine ⟨?_, ?_, ?_⟩
  · intro hpos
    simp only [blocked, notifiers, awakened, State.move] at hpos ⊢
    rcases hm.covered with ⟨hnil, hslack⟩ | ⟨hbn, hnone⟩ | ⟨hbl, hle⟩
    · rw [hnil, hslack]
      exact Nat.zero_le _
    · rw [count_eq_zero] at hpos
      · omega
      · intro u
        by_cases hut : u = t
        · subst hut
          simpa using hbn
        · rw [Function.update_of_ne hut]
          simpa using hnone u
    · have hb := count_update (fun a => decide (role a = .blocked)) s.phase t b
      have hn := count_update (fun a => (role a).notifies) s.phase t b
      have ha := count_update (fun a => (role a).awakened) s.phase t b
      have hblt : (decide (role b = .blocked)).toNat ≤ (decide (role (s.phase t) = .blocked)).toNat := by
        by_cases hb' : role b = .blocked
        · simp [hb', hbl hb']
        · simp [hb']
      have := h.covered (show 0 < count _ s.phase by omega)
      simp only [notifiers, awakened] at this
      omega
  · intro u hu
    simp only [State.move] at hu ⊢
    by_cases hut : u = t
    · subst hut
      rw [Function.update_self] at hu
      exact hm.owner hu
    · rw [Function.update_of_ne hut] at hu
      rcases hm.locked with he | hnone | hheld
      · rw [he]
        exact h.owner u hu
      · exact absurd (hnone.symm.trans (h.owner u hu)) (by simp)
      · exact absurd (h.unique hu hheld) hut
  · intro u hu
    simp only [State.move] at hu ⊢
    by_cases hut : u = t
    · subst hut
      rw [Function.update_self] at hu
      exact hm.empty hu
    · rw [Function.update_of_ne hut] at hu
      rcases hm.exclusive with he | hheld
      · rw [he]
        exact h.empty u hu
      · exact absurd (h.unique (by rw [hu]; rfl) hheld) hut

theorem Role.holds_of_looking {a : Role} (ha : a = .holding ∨ a = .rechecking) : a.holds = true := by
  rcases ha with ha | ha <;> rw [ha] <;> rfl

/-! ## The steps of a thread -/

section
variable (h : Inv role s 0) {t : ι} {b : α}
include h

theorem Inv.keep (hb : role b = role (s.phase t)) : Inv role (s.move t b s.mutex s.items) 0 := by
  refine h.move ⟨?_, Or.inl rfl, ?_, Or.inl rfl, Or.inr (Or.inr ⟨?_, ?_⟩)⟩ <;> rw [hb]
  · exact h.owner t
  · exact h.empty t
  · exact id

theorem Inv.lock (hm : s.mutex = none) (hb : (role (s.phase t) = .aside ∧ role b = .holding) ∨
    (role (s.phase t) = .awake ∧ role b = .rechecking)) : Inv role (s.move t b (some t) s.items) 0 := by
  refine h.move ⟨fun _ => rfl, Or.inr (Or.inl hm), ?_, Or.inl rfl, Or.inr (Or.inr ?_)⟩
  all_goals rcases hb with ⟨ha, hb⟩ | ⟨ha, hb⟩ <;> simp [ha, hb, Role.notifies, Role.awakened]

theorem Inv.take {c : β} {items : List β} (ha : role (s.phase t) = .holding ∨ role (s.phase t) = .rechecking)
    (hb : role b = .aside) (hi : s.items = c :: items) : Inv role (s.move t b none items) 0 := by
  have hheld := Role.holds_of_looking ha
  refine h.move ⟨?_, Or.inr (Or.inr hheld), ?_, Or.inr hheld, Or.inr (Or.inr ?_)⟩
  all_goals rcases ha with ha | ha <;> simp [ha, hb, hi, Role.holds, Role.notifies, Role.awakened]

theorem Inv.findNone (ha : role (s.phase t) = .holding ∨ role (s.phase t) = .rechecking) (hi : s.items = []) :
    Inv role (s.move t b s.mutex s.items) 0 :=
  h.move ⟨fun _ => h.owner t (Role.holds_of_looking ha), Or.inl rfl, fun _ => hi, Or.inl rfl, Or.inl ⟨hi, rfl⟩⟩

theorem Inv.wait (ha : role (s.phase t) = .willWait) (hb : role b = .blocked) :
    Inv role (s.move t b none s.items) 0 := by
  refine h.move ⟨?_, Or.inr (Or.inr (by rw [ha]; rfl)), ?_, Or.inl rfl, Or.inl ⟨h.empty t ha, rfl⟩⟩
  all_goals simp [hb, Role.holds]

theorem Inv.put {c : β} (ha : role (s.phase t) = .holding) (hb : role b = .putBack) :
    Inv role (s.move t b s.mutex (s.items ++ [c])) 0 := by
  have hheld : (role (s.phase t)).holds = true := by rw [ha]; rfl
  refine h.move ⟨fun _ => h.owner t hheld, Or.inl rfl, ?_, Or.inr hheld, Or.inr (Or.inr ?_)⟩
  all_goals simp [ha, hb, Role.notifies, Role.awakened]

theorem Inv.unlock (hb : (role (s.phase t) = .holding ∧ role b = .aside) ∨
    (role (s.phase t) = .putBack ∧ role b = .notifying)) : Inv role (s.move t b none s.items) 0 := by
  have hheld : (role (s.phase t)).holds = true := by rcases hb with ⟨ha, -⟩ | ⟨ha, -⟩ <;> rw [ha] <;> rfl
  refine h.move ⟨?_, Or.inr (Or.inr hheld), ?_, Or.inl rfl, Or.inr (Or.inr ?_)⟩
  all_goals rcases hb with ⟨ha, hb⟩ | ⟨ha, hb⟩ <;> simp [ha, hb, Role.holds, Role.notifies, Role.awakened]

theorem Inv.spurious (ha : role (s.phase t) = .blocked) (hb : role b = .awake) :
    Inv role (s.move t b s.mutex s.items) 0 := by
  refine h.move ⟨?_, Or.inl rfl, ?_, Or.inl rfl, Or.inr (Or.inr ?_)⟩
  all_goals simp [ha, hb, Role.holds, Role.notifies, Role.awakened]

end

/-! ## Notifying -/

def Notified (a b : Role) : Prop := (a = .putBack ∧ b = .holding) ∨ (a = .notifying ∧ b = .aside)

theorem Inv.notified (h : Inv role s slack) {t : ι} {b : α} (ht : Notified (role (s.phase t)) (role b))
    (hn : slack = 1 ∨ slack = 0 ∧ ∀ u, role (s.phase u) ≠ .blocked) : Inv role (s.move t b s.mutex s.items) 0 := by
  have hbn : role b ≠ .blocked := by rcases ht with ⟨-, hb⟩ | ⟨-, hb⟩ <;> rw [hb] <;> simp
  have howner : (role b).holds = true → s.mutex = some t := by
    rcases ht with ⟨ha, hb⟩ | ⟨ha, hb⟩
    · exact fun _ => h.owner t (by rw [ha]; rfl)
    · simp [hb, Role.holds]
  have hempty : role b = .willWait → s.items = [] := by
    rcases ht with ⟨-, hb⟩ | ⟨-, hb⟩ <;> simp [hb]
  refine h.move ⟨howner, Or.inl rfl, hempty, Or.inl rfl, Or.inr ?_⟩
  rcases hn with rfl | ⟨rfl, hnone⟩
  · refine Or.inr ⟨fun hb => absurd hb hbn, ?_⟩
    rcases ht with ⟨ha, hb⟩ | ⟨ha, hb⟩ <;> simp [ha, hb, Role.notifies, Role.awakened]
  · exact Or.inl ⟨hbn, hnone⟩

/-- `notify_one`: `w` is awakened if it is blocked; with someone blocked, no one else will do. -/
def State.notifyOne (role : α → Role) (s : State ι α β) (t : ι) (b : α)
    (w : ι) (c : α) : State ι α β :=
  if role (s.phase w) = .blocked then (s.move w c s.mutex s.items).move t b s.mutex s.items
  else if ∀ u, role (s.phase u) ≠ .blocked then s.move t b s.mutex s.items
  else s

/-- The notifier has one thread to spare once `w` is awakened. -/
theorem Inv.notifyOne (h : Inv role s 0) {t w : ι} {b c : α} (ht : Notified (role (s.phase t)) (role b))
    (hc : role c = .awake) : Inv role (s.notifyOne role t b w c) 0 := by
  unfold State.notifyOne
  split
  · rename_i hw
    have hne : t ≠ w := by
      intro he
      subst he
      rcases ht with ⟨ht, -⟩ | ⟨ht, -⟩ <;> rw [hw] at ht <;> cases ht
    have hawake : Inv role (s.move w c s.mutex s.items) 1 := by
      refine h.move ⟨?_, Or.inl rfl, ?_, Or.inl rfl, Or.inr (Or.inr ?_)⟩
      all_goals simp [hw, hc, Role.holds, Role.notifies, Role.awakened]
    rw [← Function.update_of_ne hne c s.phase] at ht
    exact hawake.notified ht (Or.inl rfl)
  split
  · rename_i hnone
    exact h.notified ht (Or.inr ⟨rfl, hnone⟩)
  · exact h

end Monitor
